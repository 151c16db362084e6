import Cortrix.Store.PendingLogWriter
import Cortrix.Store.Phnsw.WalWriter

/-!
# Both log codecs are exact

What is written as a frame of pending.wal or hnsw.wal is read back as it was, and of a file cut at any byte the scan
returns the records of the whole frames.

* `WalFrame dim` : an INSERT or DELETE frame of hnsw.wal, stamped when it was written (`WalFrame.isFrame`);
* `logs_read_back` : both, alone and in a file cut anywhere.
-/

namespace Cortrix.Store
open Lib

/-! ## pending.wal -/

namespace PendingEntry

def bodyNoScope (e : PendingEntry) : Bytes := if e.state = .pending then (body e).dropLast else body e

def serializeNoScope (e : PendingEntry) : Bytes := frame crc32Nat (bodyNoScope e)

/-- The length fields of a frame without the scope byte have room for the record. -/
def FitsNoScope (e : PendingEntry) : Prop :=
  e.state = .pending → e.docId.length < 2 ^ 16 ∧ 28 + e.docId.length + 8 * e.blockIds.length < 2 ^ 32

theorem Fits.noScope {e : PendingEntry} (h : Fits e) : FitsNoScope e := by
  intro hst
  obtain ⟨hdoc, hsize⟩ := h hst
  exact ⟨hdoc, by omega⟩

/-- The records both codecs are asked to carry: a `docId` the 16-bit length holds and fewer than `2^28` blocks. -/
def Bounded (e : PendingEntry) : Prop := e.docId.length ≤ 65535 ∧ e.blockIds.length < 2 ^ 28

theorem Bounded.fits {e : PendingEntry} (h : Bounded e) : Fits e := by
  intro _
  obtain ⟨hdoc, hids⟩ := h
  omega

theorem bodyNoScope_pending {e : PendingEntry} (h : e.state = .pending) :
    bodyNoScope e = [e.state.toByte] ++ (leBytes 8 e.txnId.toNat ++ (leBytes 8 e.timestampMs.toUInt64.toNat ++
      (leBytes 2 e.docId.length ++ (e.docId ++ (leBytes 4 e.blockIds.length ++
        (putU64s e.blockIds ++ [if e.hasBlob then 1 else 0])))))) := by
  have hbody : body e = ([e.state.toByte] ++ (leBytes 8 e.txnId.toNat ++ (leBytes 8 e.timestampMs.toUInt64.toNat ++
      (leBytes 2 e.docId.length ++ (e.docId ++ (leBytes 4 e.blockIds.length ++
        (putU64s e.blockIds ++ [if e.hasBlob then 1 else 0]))))))) ++ [e.scope.toByte] := by
    simp only [body, bodyTail, if_pos h, List.append_assoc]
    rfl
  unfold bodyNoScope
  rw [if_pos h, hbody, List.dropLast_concat]

theorem length_bodyNoScope (e : PendingEntry) :
    (bodyNoScope e).length = if e.state = .pending then 24 + e.docId.length + 8 * e.blockIds.length else 23 := by
  by_cases h : e.state = .pending
  · rw [bodyNoScope_pending h, if_pos h]
    simp only [List.length_append, length_leBytes, length_putU64s, List.length_cons, List.length_nil]
    omega
  · rw [bodyNoScope, if_neg h, length_body, if_neg h, if_neg h]

theorem parseBody_bodyNoScope {e : PendingEntry} (hfit : FitsNoScope e) :
    parseBody (bodyNoScope e) = .ok (stored { e with scope := .document }) := by
  by_cases h : e.state = .pending
  · obtain ⟨hdid, hsize⟩ := hfit h
    have hp := bodyNoScope_pending h
    have hlen := length_bodyNoScope e
    rw [if_pos h] at hlen
    have hdrop := drop_fields hp
    have hblob : ∀ b : Bool, (((if b then 1 else 0 : UInt8).toNat) != 0) = b := by decide
    rw [parseBody_of_fields e.state e.txnId e.timestampMs.toUInt64 hdid (by omega) hp, parseTail, if_pos h,
      if_neg (by omega), getLE_one_of_drop (by omega) hdrop, ok_bind, if_neg (by omega), hblob,
      Int64.toInt64_toUInt64, stored_pending (show ({ e with scope := .document } : PendingEntry).state = _ from h)]
    rfl
  · have hstored : stored { e with scope := .document } = stored e := by
      simp only [stored, if_neg h]
    rw [bodyNoScope, if_neg h, hstored]
    exact parseBody_body fun hst => absurd hst h

theorem isFrame_serializeNoScope {e : PendingEntry} (hfit : FitsNoScope e) :
    IsFrame codec (serializeNoScope e) (stored { e with scope := .document }) := by
  intro pre
  have hsize : (bodyNoScope e).length + 4 < 2 ^ 32 := by
    rw [length_bodyNoScope]
    split
    · rename_i hst
      obtain ⟨-, hsize⟩ := hfit hst
      omega
    · omega
  have hread : readFrame crc32Nat kChecksumLen (pre ++ serializeNoScope e) pre.length =
      some (bodyNoScope e, (pre ++ serializeNoScope e).length) :=
    readFrame_frame crc32Nat_lt pre (show 4 ≤ _ by omega) hsize
  exact format.decodeAt_eq_some.mpr ⟨_, hread, toOption_eq_some.mpr (parseBody_bodyNoScope hfit)⟩

end PendingEntry

/-- A frame of pending.wal: its record, and whether the scope byte was written. -/
structure PendingFrame where
  entry : PendingEntry
  scopeByte : Bool
  bounded : entry.Bounded

namespace PendingFrame

def bytes (f : PendingFrame) : Bytes := if f.scopeByte then f.entry.serialize else f.entry.serializeNoScope

/-- What is read back: a COMMITTED or ROLLBACK record has no payload, and without the byte the scope is `document`. -/
def record (f : PendingFrame) : PendingEntry :=
  PendingEntry.stored (if f.scopeByte then f.entry else { f.entry with scope := .document })

theorem isFrame (f : PendingFrame) : IsFrame PendingEntry.codec f.bytes f.record := by
  unfold bytes record
  split
  · exact Codec.isFrame (c := PendingEntry.codec) f.bounded.fits
  · exact PendingEntry.isFrame_serializeNoScope f.bounded.fits.noScope

end PendingFrame

/-! ## hnsw.wal -/

namespace Phnsw

/-- A frame of hnsw.wal: an INSERT of `dim` words, whose frame has a 32-bit size, or a DELETE, and the time it was
written at. -/
structure WalFrame (dim : Nat) where
  entry : WalEntry
  now : Int64
  insert_dim : entry.type = .insert → entry.vector.length = dim ∧ 21 + 4 * dim < 2 ^ 32
  delete_bare : entry.type = .delete → entry.vector = []

namespace WalFrame
variable {dim : Nat}

def bytes (f : WalFrame dim) : Bytes :=
  match f.entry.type with
  | .insert => WalEntry.serializeInsert f.entry.blockId f.entry.vector f.entry.timestampMs f.now
  | .delete => WalEntry.serializeDelete f.entry.blockId f.entry.timestampMs f.now

/-- What is read back: the entry, stamped with the time of writing when its own is negative. -/
def record (f : WalFrame dim) : WalEntry :=
  { f.entry with timestampMs := WalEntry.nowMsOrGiven f.entry.timestampMs f.now }

theorem bytes_eq (f : WalFrame dim) : f.bytes = WalEntry.serialize f.record := by
  obtain ⟨⟨type, timestampMs, blockId, vector⟩, now, hins, hdel⟩ := f
  unfold bytes record
  rcases type with _ | _
  · rfl
  · obtain rfl := hdel rfl
    rfl

theorem isFrame (f : WalFrame dim) : IsFrame (WalEntry.codec dim) f.bytes f.record := by
  have hfit : WalEntry.Fits dim f.record := by
    intro htype
    obtain ⟨hdim, hsize⟩ := f.insert_dim htype
    exact ⟨fun _ => hdim, by rw [show f.record.vector.length = dim from hdim]; exact hsize⟩
  have hstored : WalEntry.stored f.record = f.record := by
    obtain ⟨⟨type, timestampMs, blockId, vector⟩, now, hins, hdel⟩ := f
    rcases type with _ | _
    · rfl
    · obtain rfl := hdel rfl
      rfl
  rw [bytes_eq]
  have h := Codec.isFrame (c := WalEntry.codec dim) hfit
  rwa [show (WalEntry.codec dim).stored f.record = f.record from hstored] at h

end WalFrame
end Phnsw

/-! ## Both -/

theorem decode_at_of_isFrame {α : Type} {c : Codec α} {bs : Bytes} {a : α} (h : IsFrame c bs a) (pre post : Bytes) :
    c.decodeAt (pre ++ bs ++ post) pre.length = some (a, pre.length + bs.length) := by
  rw [c.grow post (h pre), List.length_append]

open Phnsw in
/-- Each frame reads back as its record, with the offset just past it, and a file of frames cut at any byte is
scanned to the records of the whole ones, in order. -/
theorem logs_read_back :
    (∀ (f : PendingFrame) (pre post : Bytes),
      PendingEntry.deserializeFrom (pre ++ f.bytes ++ post) pre.length = .ok (f.record, pre.length + f.bytes.length)) ∧
    (∀ (dim : Nat) (f : WalFrame dim) (pre post : Bytes),
      WalEntry.deserializeFrom dim (pre ++ f.bytes ++ post) pre.length = .ok (f.record, pre.length + f.bytes.length)) ∧
    (∀ (header : Bytes) (fs : List PendingFrame) (cut : Nat), header.length = PendingLogWriter.kHeaderSize →
      (PendingLogWriter.scanRecords (header ++ (fs.map PendingFrame.bytes).flatten.take cut)).1 =
        wholeFrames cut (fs.map fun f => (f.bytes, f.record))) ∧
    (∀ (dim : Nat) (header : Bytes) (fs : List (WalFrame dim)) (cut : Nat), header.length = WalWriter.kHeaderSize →
      (WalWriter.scanRecords dim (header ++ (fs.map WalFrame.bytes).flatten.take cut)).1 =
        wholeFrames cut (fs.map fun f => (f.bytes, f.record))) := by
  refine ⟨fun f pre post => ?_, fun dim f pre post => ?_, fun header fs cut hlen => ?_,
    fun dim header fs cut hlen => ?_⟩
  · apply toOption_eq_some.mp
    rw [PendingEntry.deserializeFrom_toOption]
    exact decode_at_of_isFrame f.isFrame pre post
  · apply toOption_eq_some.mp
    rw [WalEntry.deserializeFrom_toOption]
    exact decode_at_of_isFrame f.isFrame pre post
  · rw [PendingLogWriter.scanRecords_eq (by rw [List.length_append]; omega), ← hlen]
    have hfs : ∀ p ∈ fs.map fun f => (f.bytes, f.record), IsFrame PendingEntry.codec p.1 p.2 := by
      rintro _ hp
      obtain ⟨f, -, rfl⟩ := List.mem_map.mp hp
      exact f.isFrame
    have h := scan_cut hfs header cut
    rwa [List.map_map] at h
  · rw [WalWriter.scanRecords_eq, ← hlen]
    have hfs : ∀ p ∈ fs.map fun f => (f.bytes, f.record), IsFrame (WalEntry.codec dim) p.1 p.2 := by
      rintro _ hp
      obtain ⟨f, -, rfl⟩ := List.mem_map.mp hp
      exact f.isFrame
    have h := scan_cut hfs header cut
    rwa [List.map_map] at h

/-- A record of scope `blocksOnly` whose frame lacks the scope byte. -/
def oldFrame : PendingFrame where
  entry := { txnId := 1, timestampMs := 5, docId := [0x64], blockIds := [7], scope := .blocksOnly }
  scopeByte := false
  bounded := ⟨by decide, by decide⟩

def commitFrame : PendingFrame where
  entry := { state := .committed, txnId := 1, timestampMs := 6 }
  scopeByte := true
  bounded := ⟨by decide, by decide⟩

theorem logs_read_back_old_frame :
    PendingLogWriter.makeHeader.length = PendingLogWriter.kHeaderSize ∧
    (PendingLogWriter.scanRecords (PendingLogWriter.makeHeader ++
      (([oldFrame, commitFrame].map PendingFrame.bytes).flatten).take 60)).1 =
        [{ txnId := 1, timestampMs := 5, docId := [0x64], blockIds := [7], scope := .document }] := by
  refine ⟨PendingLogWriter.length_makeHeader, ?_⟩
  rw [logs_read_back.2.2.1 _ _ _ PendingLogWriter.length_makeHeader]
  decide +kernel

/-- An entry with a negative time is stored with the time of writing. -/
theorem negative_timestamp_restamped :
    Phnsw.WalEntry.deserializeFrom 4 (Phnsw.WalEntry.serializeDelete 7 (-1) 5) 0 =
      .ok ({ type := .delete, timestampMs := 5, blockId := 7, vector := [] }, 25) ∧
    ¬ ∀ (dim : Nat) (e : Phnsw.WalEntry) (now : Int64), e.type = .delete → e.vector = [] →
      Phnsw.WalEntry.deserializeFrom dim (Phnsw.WalEntry.serializeDelete e.blockId e.timestampMs now) 0 =
        .ok (e, (Phnsw.WalEntry.serializeDelete e.blockId e.timestampMs now).length) := by
  have hread : Phnsw.WalEntry.deserializeFrom 4 (Phnsw.WalEntry.serializeDelete 7 (-1) 5) 0 =
      .ok ({ type := .delete, timestampMs := 5, blockId := 7, vector := [] }, 25) := by
    apply toOption_eq_some.mp
    decide +kernel
  refine ⟨hread, fun hall => ?_⟩
  have h := hall 4 { type := .delete, timestampMs := -1, blockId := 7, vector := [] } 5 rfl rfl
  rw [hread] at h
  exact absurd (congrArg (fun p => p.1.timestampMs) (Except.ok.inj h)) (by decide)

end Cortrix.Store
