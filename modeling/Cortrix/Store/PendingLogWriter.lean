import Cortrix.Store.FileIo
import Cortrix.Store.PendingEntry

/-!
# PendingLogWriter: the file pending.wal

The file is its byte image: a 32-byte header, then frames back to back. An append writes at the end of the
file and may fail after any prefix of its bytes (`IoFault`); nothing repairs the file then.

* `WellHeaded image` : the image starts with the header, which every operation keeps;
* `scanRecords_append` : a batch appended at a frame boundary is read back behind what was there, and
  `scanRecords_mono` : no append, complete or cut, takes a record away.
-/

namespace Cortrix.Store
open Lib

namespace PendingLogWriter
open PendingEntry (codec serialize stored)

def kHeaderSize : Nat := 32
def kMagic : Bytes := [0x50, 0x57, 0x4C, 0x47]
def kVersion : Nat := 1

/-- `magic(4) version(2) reserved(22) header_crc(4)`. -/
def makeHeader : Bytes :=
  let h := kMagic ++ leBytes 2 kVersion ++ List.replicate 22 0
  h ++ leBytes 4 (crc32Nat h)

@[simp] theorem length_makeHeader : makeHeader.length = kHeaderSize := by
  simp [makeHeader, kMagic, kHeaderSize]

def corrupted (detail : String) : Status := pwlStatus .internal PwlErrors.kCorrupted detail

/-- `Open` on the bytes the path holds (none for a fresh file): the image the writer starts from. -/
def openLog (image : Bytes) : Except Status Bytes :=
  if image.length = 0 then .ok makeHeader
  else if image.length < kHeaderSize then .error (corrupted "pending.wal smaller than header")
  else if image.take 4 ≠ kMagic then .error (corrupted "bad WAL magic")
  else if leNat ((image.drop 4).take 2) ≠ kVersion then .error (corrupted "unsupported WAL version")
  else if leNat ((image.drop 28).take 4) ≠ crc32Nat (image.take 28) then
    .error (corrupted "header CRC mismatch")
  else .ok image

def writeBatch (image : Bytes) (frames : List Bytes) (fault : Option IoFault) : Bytes × Status :=
  match appendAll image frames fault with
  | (image', none) => (image', Status.okStatus)
  | (image', some f) => (image', pwlStatus .unavailable PwlErrors.kWriteFailed ("pwrite: " ++ f.error))

/-- `Sync`; a failing one reports the text of `strerror`. -/
def sync : Option String → Status
  | none => Status.okStatus
  | some err => pwlStatus .unavailable PwlErrors.kWriteFailed ("sync: " ++ err)

/-- The records of the file and the offset just past the last one that reads back. -/
def scanRecords (image : Bytes) : List PendingEntry × Nat :=
  scanLoop (fun off => (PendingEntry.deserializeFrom image off).toOption) image.length image.length
    (if kHeaderSize ≤ image.length then kHeaderSize else image.length) []

/-- The records of the file, and the file with a corrupt tail cut off. -/
def readAll (image : Bytes) : List PendingEntry × Bytes :=
  let (entries, validEnd) := scanRecords image
  (entries, if validEnd < image.length then image.take validEnd else image)

/-- The transaction has a COMMITTED or ROLLBACK record. -/
def finalized (entries : List PendingEntry) (txn : UInt64) : Bool :=
  entries.any fun e => e.txnId == txn && (e.state == .committed || e.state == .rollback)

/-- The records `Compact` keeps: PENDING ones whose transaction never reached a terminal state. -/
def unfinished (entries : List PendingEntry) : List PendingEntry :=
  entries.filter fun e => e.state == .pending && !finalized entries e.txnId

/-- `Compact`: the file rewritten with the unfinished transactions only. -/
def compact (image : Bytes) : Bytes :=
  makeHeader ++ ((unfinished (scanRecords image).1).map serialize).flatten

/-! ## What the operations do to the records -/

def WellHeaded (image : Bytes) : Prop := ∃ rest, image = makeHeader ++ rest

namespace WellHeaded
variable {image : Bytes}

theorem makeHeader_self : WellHeaded makeHeader := ⟨[], (List.append_nil _).symm⟩

theorem append (h : WellHeaded image) (post : Bytes) : WellHeaded (image ++ post) := by
  obtain ⟨rest, rfl⟩ := h
  exact ⟨rest ++ post, List.append_assoc _ _ _⟩

theorem le_length (h : WellHeaded image) : kHeaderSize ≤ image.length := by
  obtain ⟨rest, rfl⟩ := h
  simp

theorem take (h : WellHeaded image) {n : Nat} (hn : kHeaderSize ≤ n) : WellHeaded (image.take n) := by
  obtain ⟨rest, rfl⟩ := h
  refine ⟨rest.take (n - kHeaderSize), ?_⟩
  rw [List.take_append, length_makeHeader, List.take_of_length_le (by simpa using hn)]

theorem openLog_eq (h : WellHeaded image) : openLog image = .ok image := by
  have hlen := h.le_length
  obtain ⟨rest, rfl⟩ := h
  have h4 : (makeHeader ++ rest).take 4 = kMagic := rfl
  have h2 : ((makeHeader ++ rest).drop 4).take 2 = leBytes 2 kVersion := rfl
  have h28 : (makeHeader ++ rest).take 28 = kMagic ++ leBytes 2 kVersion ++ List.replicate 22 0 := rfl
  have hcrc : ((makeHeader ++ rest).drop 28).take 4 =
      leBytes 4 (crc32Nat (kMagic ++ leBytes 2 kVersion ++ List.replicate 22 0)) := rfl
  unfold openLog
  rw [if_neg (by rw [kHeaderSize] at hlen; omega), if_neg (by omega), h4, if_neg (by simp), h2,
    leNat_leBytes_of_lt (by decide), if_neg (by simp), h28, hcrc, leNat_leBytes_of_lt (crc32Nat_lt _),
    if_neg (by simp)]

end WellHeaded

variable {image : Bytes}

theorem scanRecords_eq (h : kHeaderSize ≤ image.length) : scanRecords image = scan codec image kHeaderSize := by
  unfold scanRecords
  rw [if_pos h]
  simp only [PendingEntry.deserializeFrom_toOption]
  rfl

theorem scanRecords_mono (h : kHeaderSize ≤ image.length) (post : Bytes) :
    (scanRecords image).1 <+: (scanRecords (image ++ post)).1 := by
  rw [scanRecords_eq h, scanRecords_eq (by rw [List.length_append]; omega)]
  exact scan_append_prefix _ _ _

theorem scanRecords_append (es : List PendingEntry) (h : kHeaderSize ≤ image.length)
    (hend : (scanRecords image).2 = image.length) (hfit : ∀ e ∈ es, PendingEntry.Fits e) :
    scanRecords (image ++ (es.map serialize).flatten) =
      ((scanRecords image).1 ++ es.map stored, (image ++ (es.map serialize).flatten).length) := by
  rw [scanRecords_eq (by rw [List.length_append]; omega)]
  rw [scanRecords_eq h] at hend ⊢
  exact scan_append_frames (c := codec) hend hfit

theorem scanRecords_le (h : kHeaderSize ≤ image.length) :
    kHeaderSize ≤ (scanRecords image).2 ∧ (scanRecords image).2 ≤ image.length := by
  rw [scanRecords_eq h]
  exact ⟨(scan_spec image kHeaderSize).1.le, scan_le_length h⟩

theorem scanRecords_readAll (h : kHeaderSize ≤ image.length) :
    scanRecords (readAll image).2 = ((scanRecords image).1, (readAll image).2.length) := by
  obtain ⟨hlo, hhi⟩ := scanRecords_le h
  simp only [readAll]
  split
  · have hlen : (image.take (scanRecords image).2).length = (scanRecords image).2 := by
      rw [List.length_take]
      omega
    rw [hlen, scanRecords_eq (by omega)]
    rw [scanRecords_eq h]
    exact scan_take h
  · rw [show image.length = (scanRecords image).2 by omega]

theorem WellHeaded.readAll (h : WellHeaded image) : WellHeaded (readAll image).2 := by
  simp only [PendingLogWriter.readAll]
  split
  · exact h.take (scanRecords_le h.le_length).1
  · exact h

theorem WellHeaded.compact (image : Bytes) : WellHeaded (compact image) := ⟨_, rfl⟩

theorem scanRecords_makeHeader : scanRecords makeHeader = ([], makeHeader.length) := by
  rw [scanRecords_eq (by simp), ← length_makeHeader]
  exact scan_eq (Parsed.nil _) (Codec.decodeAt_end (le_refl _))

theorem mem_unfinished {entries : List PendingEntry} {e : PendingEntry} :
    e ∈ unfinished entries ↔ e ∈ entries ∧ e.state = .pending ∧ finalized entries e.txnId = false := by
  simp [unfinished, List.mem_filter]

theorem unfinished_map_stored (entries : List PendingEntry) :
    (unfinished entries).map stored = unfinished entries := by
  have h : (unfinished entries).map stored = (unfinished entries).map id :=
    List.map_congr_left fun e he => PendingEntry.stored_pending (mem_unfinished.mp he).2.1
  rw [h, List.map_id]

/-- `Compact` leaves the unfinished records and a file that ends at a frame boundary. -/
theorem scanRecords_compact_of_retained (hfit : ∀ e ∈ unfinished (scanRecords image).1, PendingEntry.Fits e) :
    scanRecords (compact image) = (unfinished (scanRecords image).1, (compact image).length) := by
  have h := scanRecords_append (unfinished (scanRecords image).1) (show kHeaderSize ≤ makeHeader.length by simp)
    (by rw [scanRecords_makeHeader]) hfit
  rwa [scanRecords_makeHeader, List.nil_append, unfinished_map_stored] at h

theorem scanRecords_compact (hfit : ∀ e ∈ (scanRecords image).1, PendingEntry.Fits e) :
    scanRecords (compact image) = (unfinished (scanRecords image).1, (compact image).length) :=
  scanRecords_compact_of_retained fun e he => hfit e (mem_unfinished.mp he).1

end PendingLogWriter
end Cortrix.Store
