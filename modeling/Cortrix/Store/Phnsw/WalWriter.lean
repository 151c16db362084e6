import Cortrix.Store.FileIo
import Cortrix.Store.Phnsw.WalEntry

/-!
# WalWriter: the file hnsw.wal

The file is a 32-byte header, whose counters are rewritten in place, then frames back to back. The writer
keeps the counters in memory and trusts the header's only when its checksum matches.

* `Headed dim image` : the header's magic, version and dimension are in place, whatever its counters say;
  every operation keeps it, also with a header write cut short, so the file opens again.
-/

namespace Cortrix.Store.Phnsw
open Lib

structure WalWriter where
  image : Bytes
  dim : Nat
  entryCount : UInt64
  committedLsn : UInt64
  headerTrusted : Bool

namespace WalWriter
open WalEntry (serialize stored)

def kMagic : Bytes := [0x50, 0x57, 0x41, 0x4C]
def kVersion : Nat := 1
def kHeaderSize : Nat := 32

/-- The fields that never change: `magic(4) version(2) dim(4)`. -/
def fixedHeader (dim : Nat) : Bytes := kMagic ++ leBytes 2 kVersion ++ leBytes 4 dim

/-- The 32-byte header; its checksum covers the first 28 bytes. -/
def makeHeader (dim : Nat) (entryCount committedLsn : UInt64) : Bytes :=
  let h := fixedHeader dim ++ (leBytes 8 entryCount.toNat ++ leBytes 8 committedLsn.toNat ++ [0, 0])
  h ++ leBytes 4 (crc32Nat h)

variable (dim : Nat) {image : Bytes}

@[simp] theorem length_fixedHeader : (fixedHeader dim).length = 10 := by
  simp [fixedHeader, kMagic]

@[simp] theorem length_makeHeader (n l : UInt64) : (makeHeader dim n l).length = kHeaderSize := by
  simp [makeHeader, kHeaderSize]

def corrupted (detail : String) : Status := phnswStatus .invalidArgument PhnswErrors.kWalCorrupted detail

/-- `Open` on the bytes the path holds (none for a fresh file). -/
def openWal (dim : Nat) (image : Bytes) : Except Status WalWriter :=
  if dim = 0 then
    .error (phnswStatus .invalidArgument PhnswErrors.kVectorDimMismatch "WalWriter::Open: dim must be > 0")
  else if image.length = 0 then
    .ok { image := makeHeader dim 0 0, dim, entryCount := 0, committedLsn := 0, headerTrusted := true }
  else if image.length < kHeaderSize then .error (corrupted "WalWriter::Open: file smaller than header")
  else if image.take 4 ≠ kMagic then .error (corrupted "WalWriter::Open: bad magic")
  else if leNat ((image.drop 4).take 2) ≠ kVersion then
    .error (corrupted "WalWriter::Open: unsupported version")
  else if leNat ((image.drop 6).take 4) ≠ dim % 2 ^ 32 then
    .error (corrupted "WalWriter::Open: dim mismatch (file vs requested)")
  else if leNat ((image.drop 28).take 4) ≠ crc32Nat (image.take 28) then
    .ok { image, dim, entryCount := 0, committedLsn := 0, headerTrusted := false }
  else
    .ok { image, dim, entryCount := UInt64.ofNat (leNat ((image.drop 10).take 8)),
          committedLsn := UInt64.ofNat (leNat ((image.drop 18).take 8)), headerTrusted := true }

def writeFailed (what : String) (f : IoFault) : Status :=
  phnswStatus .unavailable PhnswErrors.kWalWriteFailed (what ++ " pwrite: " ++ f.error)

/-- The records at the end of the file; the counters move only when all of them are down. -/
def writeRecordsLocked (w : WalWriter) (records : List Bytes) (fault : Option IoFault) : WalWriter × Status :=
  if records.isEmpty then (w, Status.okStatus) else
  match appendAll w.image records fault with
  | (image, none) =>
    ({ w with image, entryCount := w.entryCount + UInt64.ofNat records.length,
              committedLsn := w.committedLsn + UInt64.ofNat records.length }, Status.okStatus)
  | (image, some f) => ({ w with image }, writeFailed "WalWriter::WriteRecords" f)

def rewriteHeaderLocked (w : WalWriter) (fault : Option IoFault) : WalWriter × Status :=
  match overwrite w.image (makeHeader w.dim w.entryCount w.committedLsn) fault with
  | (image, none) => ({ w with image, headerTrusted := true }, Status.okStatus)
  | (image, some f) => ({ w with image }, writeFailed "WalWriter::RewriteHeader" f)

def writeBatch (w : WalWriter) (entries : List Bytes) (fault headerFault : Option IoFault) : WalWriter × Status :=
  let (w', st) := writeRecordsLocked w entries fault
  if st.isOk then rewriteHeaderLocked w' headerFault else (w', st)

/-- `Sync`; a failing one reports the text of `strerror`. -/
def sync : Option String → Status
  | none => Status.okStatus
  | some err => phnswStatus .unavailable PhnswErrors.kWalSyncFailed ("WalWriter: fdatasync: " ++ err)

/-- The records of an image and the offset just past the last one that reads back. -/
def scanRecords (dimCheck : Nat) (image : Bytes) : List WalEntry × Nat :=
  scanLoop (fun off => (WalEntry.deserializeFrom dimCheck image off).toOption) image.length image.length
    kHeaderSize []

/-- `ReadAll`: the records; a corrupt tail is cut off, and then, or when the header was not trusted, the
counters are derived again on the base they imply. -/
def readAll (w : WalWriter) (expectedDim : Nat) : List WalEntry × WalWriter :=
  if w.image.length < kHeaderSize then ([], w) else
  let (out, validEnd) := scanRecords (if 0 < expectedDim then expectedDim else w.dim) w.image
  let hadTailCorruption := validEnd < w.image.length
  if hadTailCorruption ∨ w.headerTrusted = false then
    let base := w.committedLsn - w.entryCount
    let w' := { w with image := if hadTailCorruption then w.image.take validEnd else w.image,
                       entryCount := UInt64.ofNat out.length,
                       committedLsn := base + UInt64.ofNat out.length }
    (out, (rewriteHeaderLocked w' none).1)
  else (out, w)

/-! ## The header stays readable -/

def Headed (dim : Nat) (image : Bytes) : Prop :=
  ∃ h rest, image = h ++ rest ∧ h.length = kHeaderSize ∧ h.take 10 = fixedHeader dim

namespace Headed
variable {dim}

theorem le_length (h : Headed dim image) : kHeaderSize ≤ image.length := by
  obtain ⟨hdr, rest, rfl, hlen, -⟩ := h
  rw [List.length_append]
  omega

theorem makeHeader_append (dim : Nat) (n l : UInt64) (rest : Bytes) : Headed dim (makeHeader dim n l ++ rest) := by
  refine ⟨_, rest, rfl, length_makeHeader _ _ _, ?_⟩
  rw [makeHeader, List.append_assoc]
  exact List.take_left' (length_fixedHeader dim)

theorem append (h : Headed dim image) (post : Bytes) : Headed dim (image ++ post) := by
  obtain ⟨hdr, rest, rfl, hlen, hfix⟩ := h
  exact ⟨hdr, rest ++ post, List.append_assoc _ _ _, hlen, hfix⟩

theorem take (h : Headed dim image) {n : Nat} (hn : kHeaderSize ≤ n) : Headed dim (image.take n) := by
  obtain ⟨hdr, rest, rfl, hlen, hfix⟩ := h
  refine ⟨hdr, rest.take (n - hdr.length), ?_, hlen, hfix⟩
  rw [List.take_append, List.take_of_length_le (by omega)]

theorem overwrite (h : Headed dim image) (n l : UInt64) (fault : Option IoFault) :
    Headed dim (overwrite image (makeHeader dim n l) fault).1 ∧
      (Store.overwrite image (makeHeader dim n l) fault).1.drop kHeaderSize = image.drop kHeaderSize := by
  obtain ⟨hdr, rest, rfl, hlen, hfix⟩ := h
  obtain ⟨k, hk, heq⟩ := overwrite_header rest
    (show (makeHeader dim n l).length = hdr.length by rw [length_makeHeader, hlen]) fault
  have hmlen := length_makeHeader dim n l
  have hmix : ((makeHeader dim n l).take k ++ hdr.drop k).length = kHeaderSize := by
    rw [List.length_append, List.length_take, List.length_drop]
    omega
  have hmfix : (makeHeader dim n l).take 10 = fixedHeader dim := by
    rw [makeHeader, List.append_assoc]
    exact List.take_left' (length_fixedHeader dim)
  rw [heq]
  refine ⟨⟨_, rest, rfl, hmix, ?_⟩, ?_⟩
  · -- old and new header agree on the fixed fields, so any mix of them does
    have hsplit : ∀ a b : Bytes, a.take 10 = b.take 10 → a.length = b.length →
        (a.take k ++ b.drop k).take 10 = b.take 10 := by
      intro a b hab hlen
      have key : (a.take k).take 10 = (b.take k).take 10 := by
        rw [List.take_take, List.take_take, Nat.min_comm, ← List.take_take, ← List.take_take, hab]
      calc (a.take k ++ b.drop k).take 10
          = (a.take k).take 10 ++ (b.drop k).take (10 - (a.take k).length) := List.take_append
        _ = (b.take k).take 10 ++ (b.drop k).take (10 - (b.take k).length) := by
            rw [key, List.length_take, List.length_take, hlen]
        _ = (b.take k ++ b.drop k).take 10 := List.take_append.symm
        _ = b.take 10 := by rw [List.take_append_drop]
    rw [hsplit _ _ (hmfix.trans hfix.symm) (by rw [hmlen, hlen]), hfix]
  · rw [List.drop_left' hmix, List.drop_left' hlen]

theorem openWal_crc (h : Headed dim image) (hdim : 0 < dim) :
    openWal dim image = .ok
      (if leNat ((image.drop 28).take 4) ≠ crc32Nat (image.take 28) then
        { image, dim, entryCount := 0, committedLsn := 0, headerTrusted := false }
      else
        { image, dim, entryCount := UInt64.ofNat (leNat ((image.drop 10).take 8)),
          committedLsn := UInt64.ofNat (leNat ((image.drop 18).take 8)), headerTrusted := true }) := by
  have hlen := h.le_length
  obtain ⟨hdr, rest, rfl, hhdr, hfix⟩ := h
  rw [kHeaderSize] at hhdr hlen
  have h10 : (hdr ++ rest).take 10 = fixedHeader dim := by
    rw [List.take_append_of_le_length (by omega), hfix]
  -- every fixed field is read from the first ten bytes
  have hfield : ∀ o n : Nat, o + n ≤ 10 → ((hdr ++ rest).drop o).take n = ((fixedHeader dim).drop o).take n := by
    intro o n hon
    rw [← h10, List.drop_take, List.take_take, Nat.min_eq_left (by omega)]
  have h4 : (hdr ++ rest).take 4 = kMagic := by
    have := hfield 0 4 (by omega)
    rwa [List.drop_zero] at this
  have h2 : ((hdr ++ rest).drop 4).take 2 = leBytes 2 kVersion := hfield 4 2 (by omega)
  have h6 : ((hdr ++ rest).drop 6).take 4 = leBytes 4 dim := hfield 6 4 (by omega)
  unfold openWal
  rw [if_neg (by omega), if_neg (by omega), if_neg (by rw [kHeaderSize]; omega), h4, if_neg (by simp), h2,
    leNat_leBytes_of_lt (by decide), if_neg (by simp), h6, leNat_leBytes, if_neg (by simp)]
  split <;> rfl

theorem openWal_eq (h : Headed dim image) (hdim : 0 < dim) :
    ∃ w, openWal dim image = .ok w ∧ w.image = image ∧ w.dim = dim := by
  refine ⟨_, h.openWal_crc hdim, ?_⟩
  split <;> exact ⟨rfl, rfl⟩

end Headed

/-! ## What the operations do to the records -/

theorem scanRecords_eq (image : Bytes) : scanRecords dim image = scan (WalEntry.codec dim) image kHeaderSize := by
  unfold scanRecords
  simp only [WalEntry.deserializeFrom_toOption]
  rfl

theorem scanRecords_congr {image' : Bytes} (h : kHeaderSize ≤ image.length) (h' : kHeaderSize ≤ image'.length)
    (hrest : image.drop kHeaderSize = image'.drop kHeaderSize) : scanRecords dim image = scanRecords dim image' := by
  have hsplit : ∀ im : Bytes, kHeaderSize ≤ im.length → scanRecords dim im =
      ((scan (WalEntry.codec dim) (im.drop kHeaderSize) 0).1,
        kHeaderSize + (scan (WalEntry.codec dim) (im.drop kHeaderSize) 0).2) := by
    intro im him
    have hlen : (im.take kHeaderSize).length = kHeaderSize := by
      rw [List.length_take]
      omega
    have hheader := scan_header (c := WalEntry.codec dim) (im.take kHeaderSize) (im.drop kHeaderSize)
    rw [hlen, List.take_append_drop] at hheader
    rw [scanRecords_eq, hheader]
  rw [hsplit image h, hsplit image' h', hrest]

theorem scanRecords_mono (image post : Bytes) : (scanRecords dim image).1 <+: (scanRecords dim (image ++ post)).1 := by
  rw [scanRecords_eq, scanRecords_eq]
  exact scan_append_prefix _ _ _

theorem scanRecords_append {dim : Nat} {es : List WalEntry} (hend : (scanRecords dim image).2 = image.length)
    (hfit : ∀ e ∈ es, WalEntry.Fits dim e) :
    scanRecords dim (image ++ (es.map serialize).flatten) =
      ((scanRecords dim image).1 ++ es.map stored, (image ++ (es.map serialize).flatten).length) := by
  rw [scanRecords_eq] at hend ⊢
  rw [scanRecords_eq]
  exact scan_append_frames (c := WalEntry.codec dim) hend hfit

@[simp] theorem writeFailed_isOk (what : String) (f : IoFault) : (writeFailed what f).isOk = false := rfl

@[simp] theorem okStatus_isOk : Status.okStatus.isOk = true := rfl

theorem writeRecordsLocked_spec (w : WalWriter) (records : List Bytes) (fault : Option IoFault) :
    (writeRecordsLocked w records fault).1.dim = w.dim ∧
      ((writeRecordsLocked w records fault).2.isOk = true ↔ ∀ f ∈ fault, records.flatten.length ≤ f.bytes) ∧
      ∃ n, (writeRecordsLocked w records fault).1.image = w.image ++ records.flatten.take n ∧
        ((writeRecordsLocked w records fault).2.isOk = true → records.flatten.length ≤ n) := by
  unfold writeRecordsLocked
  split
  · rename_i hempty
    rw [List.isEmpty_iff.mp hempty]
    exact ⟨rfl, by simp, 0, by simp, by simp⟩
  · rcases appendAll_cases w.image records fault with ⟨hnone, himage⟩ | ⟨f, n, hsome, hn, himage⟩
    · have hfault := appendAll_eq_none.mp hnone
      rw [show appendAll w.image records fault = (w.image ++ records.flatten, none) from Prod.ext himage hnone]
      exact ⟨rfl, by simpa using hfault, records.flatten.length, by rw [List.take_length], fun _ => le_refl _⟩
    · have hfault : ¬ ∀ f ∈ fault, records.flatten.length ≤ f.bytes := fun h => by
        rw [appendAll_eq_none.mpr h] at hsome
        cases hsome
      rw [show appendAll w.image records fault = (w.image ++ records.flatten.take n, some f) from
        Prod.ext himage hsome]
      exact ⟨rfl, by simpa using hfault, n, rfl, by simp⟩

theorem rewriteHeaderLocked_spec {w : WalWriter} (hw : Headed w.dim w.image) (fault : Option IoFault) :
    (rewriteHeaderLocked w fault).1.dim = w.dim ∧ Headed w.dim (rewriteHeaderLocked w fault).1.image ∧
      (rewriteHeaderLocked w fault).1.image.drop kHeaderSize = w.image.drop kHeaderSize ∧
      ((rewriteHeaderLocked w fault).2.isOk = true ↔ ∀ f ∈ fault, kHeaderSize ≤ f.bytes) := by
  obtain ⟨hheaded, hrest⟩ := hw.overwrite w.entryCount w.committedLsn fault
  have hfault : (Store.overwrite w.image (makeHeader w.dim w.entryCount w.committedLsn) fault).2 = none ↔
      ∀ f ∈ fault, kHeaderSize ≤ f.bytes := by
    unfold Store.overwrite
    split
    · simp
    · rw [length_makeHeader]
      split <;> simp_all
  unfold rewriteHeaderLocked
  split
  · rename_i image heq
    rw [heq] at hheaded hrest hfault
    exact ⟨rfl, hheaded, hrest, by simpa using hfault⟩
  · rename_i image f heq
    rw [heq] at hheaded hrest hfault
    exact ⟨rfl, hheaded, hrest, by simpa using hfault⟩

/-- `WriteBatch` appends the records, or a prefix of them, and touches nothing else behind the header. -/
theorem writeBatch_spec {w : WalWriter} (hw : Headed w.dim w.image) (entries : List Bytes)
    (fault headerFault : Option IoFault) :
    (writeBatch w entries fault headerFault).1.dim = w.dim ∧
      Headed w.dim (writeBatch w entries fault headerFault).1.image ∧
      ((writeBatch w entries fault headerFault).2.isOk = true ↔
        (∀ f ∈ fault, entries.flatten.length ≤ f.bytes) ∧ ∀ f ∈ headerFault, kHeaderSize ≤ f.bytes) ∧
      ∃ n, (writeBatch w entries fault headerFault).1.image.drop kHeaderSize =
          (w.image ++ entries.flatten.take n).drop kHeaderSize ∧
        ((writeBatch w entries fault headerFault).2.isOk = true → entries.flatten.length ≤ n) := by
  obtain ⟨hdim, hok, n, himage, hn⟩ := writeRecordsLocked_spec w entries fault
  have hheaded : Headed (writeRecordsLocked w entries fault).1.dim (writeRecordsLocked w entries fault).1.image := by
    rw [hdim, himage]
    exact hw.append _
  unfold writeBatch
  simp only
  split
  · rename_i hst
    obtain ⟨hdim', hheaded', hrest, hok'⟩ := rewriteHeaderLocked_spec hheaded headerFault
    rw [hdim] at hdim' hheaded'
    refine ⟨hdim', hheaded', ?_, n, by rw [hrest, himage], fun _ => hn hst⟩
    rw [hok', ← hok]
    simp [hst]
  · rename_i hst
    rw [hdim] at hheaded
    refine ⟨hdim, hheaded, ?_, n, by rw [himage], fun h => absurd h hst⟩
    rw [← hok]
    simp [hst]

theorem scanRecords_le (h : kHeaderSize ≤ image.length) :
    kHeaderSize ≤ (scanRecords dim image).2 ∧ (scanRecords dim image).2 ≤ image.length := by
  rw [scanRecords_eq]
  exact ⟨(scan_spec image kHeaderSize).1.le, scan_le_length h⟩

theorem scanRecords_take {dim : Nat} (h : kHeaderSize ≤ image.length) :
    scanRecords dim (image.take (scanRecords dim image).2) =
      ((scanRecords dim image).1, (image.take (scanRecords dim image).2).length) := by
  obtain ⟨-, hle⟩ := scanRecords_le dim h
  rw [List.length_take, Nat.min_eq_left hle, scanRecords_eq, scanRecords_eq]
  exact scan_take h

theorem readAll_spec {w : WalWriter} (hw : Headed w.dim w.image) :
    (readAll w w.dim).1 = (scanRecords w.dim w.image).1 ∧ (readAll w w.dim).2.dim = w.dim ∧
      Headed w.dim (readAll w w.dim).2.image ∧
      scanRecords w.dim (readAll w w.dim).2.image =
        ((scanRecords w.dim w.image).1, (readAll w w.dim).2.image.length) := by
  have hlen := hw.le_length
  obtain ⟨hlo, hhi⟩ := scanRecords_le w.dim hlen
  unfold readAll
  rw [if_neg (by omega), ite_self]
  simp only
  split
  · have hcut : (if (scanRecords w.dim w.image).2 < w.image.length then
        w.image.take (scanRecords w.dim w.image).2 else w.image) = w.image.take (scanRecords w.dim w.image).2 := by
      split
      · rfl
      · rw [List.take_of_length_le (by omega)]
    rw [hcut]
    have hheaded := hw.take hlo
    obtain ⟨hdim, hheaded', hrest, -⟩ := rewriteHeaderLocked_spec
      (w := { w with image := w.image.take (scanRecords w.dim w.image).2,
                     entryCount := UInt64.ofNat (scanRecords w.dim w.image).1.length,
                     committedLsn := w.committedLsn - w.entryCount +
                       UInt64.ofNat (scanRecords w.dim w.image).1.length }) hheaded none
    simp only at hdim hheaded' hrest
    refine ⟨rfl, hdim, hheaded', ?_⟩
    rw [scanRecords_congr _ hheaded'.le_length hheaded.le_length hrest, scanRecords_take hlen]
    have hlengths := congrArg List.length hrest
    have hle := hheaded.le_length
    have hle' := hheaded'.le_length
    rw [List.length_drop, List.length_drop] at hlengths
    refine Prod.ext rfl ?_
    dsimp only at hlengths hle hle' ⊢
    omega
  · rename_i hclean
    have hend : (scanRecords w.dim w.image).2 = w.image.length := by
      by_contra hne
      exact hclean (Or.inl (by omega))
    exact ⟨rfl, rfl, hw, by rw [← hend]⟩

end WalWriter
end Cortrix.Store.Phnsw
