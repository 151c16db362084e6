import Cortrix.Store.Crc32

/-!
# PendingEntry: one record of pending.wal

* every length field is cut to its width;
* `parseBody_body` : a record that `Fits` is parsed back as `stored` (a COMMITTED or ROLLBACK record keeps
  its `txnId` and `timestampMs` only); `parseBody_sizes` : whatever parses has a `docId` of at most 65535
  bytes and a payload that lies inside the body.
-/

namespace Cortrix.Store
open Lib

inductive PendingEntry.State
  | pending | committed | rollback
  deriving DecidableEq

/-- What the transaction may have written beyond the blocks it lists. -/
inductive PendingEntry.Scope
  | document | blocksOnly
  deriving DecidableEq

structure PendingEntry where
  state : PendingEntry.State := .pending
  txnId : UInt64 := 0
  timestampMs : Int64 := 0
  docId : Bytes := []
  blockIds : List UInt64 := []
  hasBlob : Bool := false
  scope : PendingEntry.Scope := .document
  deriving DecidableEq

namespace PendingEntry

def State.toByte : State → UInt8
  | .pending => 1
  | .committed => 2
  | .rollback => 3

def State.ofRaw : Nat → Option State
  | 1 => some .pending
  | 2 => some .committed
  | 3 => some .rollback
  | _ => none

def Scope.toByte : Scope → UInt8
  | .document => 0
  | .blocksOnly => 1

/-- Any value but 1 reads as `document`. -/
def Scope.ofRaw (n : Nat) : Scope := if n = 1 then .blocksOnly else .document

def kChecksumLen : Nat := 4
def kBodyHeadLen : Nat := 19
def kBlockCountLen : Nat := 4

/-! ## Serialize -/

def putU64s (ids : List UInt64) : Bytes := putLEs 8 (ids.map UInt64.toNat)

/-- The payload a PENDING record carries behind its block count. -/
def bodyTail (e : PendingEntry) : Bytes :=
  if e.state = .pending then
    putU64s e.blockIds ++ [if e.hasBlob then 1 else 0, e.scope.toByte]
  else []

/-- The bytes the checksum covers. Only PENDING records carry `docId` and `blockIds`. -/
def body (e : PendingEntry) : Bytes :=
  let did := if e.state = .pending then e.docId else []
  let blockCount := if e.state = .pending then e.blockIds.length else 0
  [e.state.toByte] ++ (leBytes 8 e.txnId.toNat ++ (leBytes 8 e.timestampMs.toUInt64.toNat ++
    (leBytes 2 did.length ++ (did ++ (leBytes 4 blockCount ++ bodyTail e)))))

def serialize (e : PendingEntry) : Bytes := frame crc32Nat (body e)

/-! ## DeserializeFrom -/

def corrupted (detail : String) : DecodeError := .status (pwlStatus .internal PwlErrors.kCorrupted detail)

/-- The trailing bytes of a PENDING body: `has_blob`, then the optional `scope`. -/
def parseTail (p : Bytes) (pos : Nat) (e : PendingEntry) : Except DecodeError PendingEntry :=
  if e.state = .pending then
    if p.length < pos + 1 then .error (corrupted "has_blob overruns body") else do
    let rawBlob ← getLE 1 p pos
    if pos + 2 ≤ p.length then do
      let rawScope ← getLE 1 p (pos + 1)
      return { e with hasBlob := rawBlob != 0, scope := Scope.ofRaw rawScope }
    else return { e with hasBlob := rawBlob != 0 }
  else .ok e

/-- Parse a body whose checksum matched. -/
def parseBody (p : Bytes) : Except DecodeError PendingEntry :=
  if p.length < kBodyHeadLen then .error (corrupted "body shorter than header") else do
  let rawState ← getLE 1 p 0
  match State.ofRaw rawState with
  | none => .error (corrupted "unknown entry_type")
  | some state =>
    let txnId ← getLE 8 p 1
    let timestamp ← getLE 8 p 9
    let docIdLen ← getLE 2 p 17
    if p.length < 19 + docIdLen + kBlockCountLen then .error (corrupted "doc_id overruns body") else do
    let docId ← getBytes p 19 docIdLen
    let blockCount ← getLE 4 p (19 + docIdLen)
    if p.length < 23 + docIdLen + blockCount * 8 then .error (corrupted "block_ids overrun body") else do
    let rawIds ← getLEs 8 p (23 + docIdLen) blockCount
    parseTail p (23 + docIdLen + blockCount * 8)
      { state, txnId := UInt64.ofNat txnId, timestampMs := (UInt64.ofNat timestamp).toInt64, docId,
        blockIds := rawIds.map UInt64.ofNat }

def frameErrors : FrameErrors where
  truncated := corrupted "truncated entry_size prefix"
  tooSmall := corrupted "entry_size smaller than checksum"
  overrun := corrupted "entry_size overruns buffer"
  crcMismatch := corrupted "CRC mismatch"

/-- Parse one frame of a span; the offset returned is the one just past it. -/
def deserializeFrom (data : Bytes) (offset : Nat) : Except DecodeError (PendingEntry × Nat) := do
  let (body, frameEnd) ← checkFrame kChecksumLen frameErrors data offset
  let e ← parseBody body
  return (e, frameEnd)

/-! ## The frame holds what is stored -/

/-- What a frame keeps of a record. -/
def stored (e : PendingEntry) : PendingEntry :=
  if e.state = .pending then e else { state := e.state, txnId := e.txnId, timestampMs := e.timestampMs }

/-- The length fields of the frame have room for the record. -/
def Fits (e : PendingEntry) : Prop :=
  e.state = .pending → e.docId.length < 2 ^ 16 ∧ 29 + e.docId.length + 8 * e.blockIds.length < 2 ^ 32

instance (e : PendingEntry) : Decidable (Fits e) := inferInstanceAs (Decidable (_ → _))

@[simp] theorem stored_state (e : PendingEntry) : (stored e).state = e.state := by
  unfold stored
  split <;> rfl

@[simp] theorem stored_txnId (e : PendingEntry) : (stored e).txnId = e.txnId := by
  unfold stored
  split <;> rfl

theorem stored_pending {e : PendingEntry} (h : e.state = .pending) : stored e = e := if_pos h

@[simp] theorem length_putU64s (ids : List UInt64) : (putU64s ids).length = 8 * ids.length := by
  rw [putU64s, length_putLEs, List.length_map]

theorem length_body (e : PendingEntry) :
    (body e).length = if e.state = .pending then 25 + e.docId.length + 8 * e.blockIds.length else 23 := by
  unfold body bodyTail
  by_cases h : e.state = .pending
  · simp only [if_pos h, List.length_append, length_leBytes, length_putU64s, List.length_cons, List.length_nil]
    omega
  · simp [if_neg h]

theorem State.ofRaw_toByte (st : State) : State.ofRaw st.toByte.toNat = some st := by
  cases st <;> rfl

theorem drop_fields {p did tail : Bytes} {ids : List UInt64} {st : State} {txn ts : UInt64}
    (hp : p = [st.toByte] ++ (leBytes 8 txn.toNat ++ (leBytes 8 ts.toNat ++ (leBytes 2 did.length ++
      (did ++ (leBytes 4 ids.length ++ (putU64s ids ++ tail))))))) : p.drop (23 + did.length + ids.length * 8) = tail := by
  rw [hp]
  simp only [← List.append_assoc]
  refine List.drop_left' ?_
  simp only [List.length_append, length_leBytes, length_putU64s, List.length_cons, List.length_nil]
  omega

theorem parseBody_of_fields {p did tail : Bytes} {ids : List UInt64} (st : State) (txn ts : UInt64)
    (hdid : did.length < 2 ^ 16) (hids : ids.length < 2 ^ 32)
    (hp : p = [st.toByte] ++ (leBytes 8 txn.toNat ++ (leBytes 8 ts.toNat ++ (leBytes 2 did.length ++
      (did ++ (leBytes 4 ids.length ++ (putU64s ids ++ tail))))))) :
    parseBody p = parseTail p (23 + did.length + ids.length * 8)
      { state := st, txnId := txn, timestampMs := ts.toInt64, docId := did, blockIds := ids } := by
  have hlen : p.length = 23 + did.length + 8 * ids.length + tail.length := by
    rw [hp]
    simp only [List.length_append, length_leBytes, length_putU64s, List.length_cons, List.length_nil]
    omega
  have hu64 : ∀ x : UInt64, UInt64.ofNat (x.toNat % 256 ^ 8) = x := fun x => by
    rw [Nat.mod_eq_of_lt (show x.toNat < 256 ^ 8 from x.toNat_lt), UInt64.ofNat_toNat]
  -- peel the body field by field
  have h0 : p.drop 0 = [st.toByte] ++ _ := hp
  have h1 := drop_step h0
  have h9 := drop_step h1
  have h17 := drop_step h9
  have h19 := drop_step h17
  have hcnt := drop_step h19
  have hblk := drop_step hcnt
  simp only [List.length_cons, List.length_nil, length_leBytes, Nat.zero_add, Nat.reduceAdd] at h1 h9 h17 h19 hcnt hblk
  have hpos : 19 + did.length + 4 = 23 + did.length := by omega
  rw [hpos] at hblk
  have hrd : getLEs 8 p (23 + did.length) ids.length = .ok (ids.map UInt64.toNat) := by
    rw [← List.length_map (f := UInt64.toNat)]
    refine getLEs_of_drop _ ?_ (by rw [List.length_map]; omega) hblk
    rintro _ hn
    obtain ⟨x, -, rfl⟩ := List.mem_map.mp hn
    exact x.toNat_lt
  unfold parseBody
  rw [if_neg (by rw [hlen, kBodyHeadLen]; omega), getLE_one_of_drop (Nat.zero_le _) h0, ok_bind, State.ofRaw_toByte]
  simp only
  rw [getLE_of_drop (by omega) h1, ok_bind, getLE_of_drop (by omega) h9, ok_bind, getLE_of_drop (by omega) h17,
    ok_bind, Nat.mod_eq_of_lt (show did.length < 256 ^ 2 from hdid),
    if_neg (by rw [kBlockCountLen]; omega), getBytes_of_read (readAt_of_drop (by omega) h19), ok_bind,
    getLE_of_drop (by omega) hcnt, ok_bind, Nat.mod_eq_of_lt (show ids.length < 256 ^ 4 from hids),
    if_neg (by omega), hrd, ok_bind, hu64, hu64, toNat_ofNat_map]

theorem parseBody_body {e : PendingEntry} (hfit : Fits e) : parseBody (body e) = .ok (stored e) := by
  by_cases h : e.state = .pending
  · obtain ⟨hdid, hsize⟩ := hfit h
    have hp : body e = [e.state.toByte] ++ (leBytes 8 e.txnId.toNat ++ (leBytes 8 e.timestampMs.toUInt64.toNat ++
        (leBytes 2 e.docId.length ++ (e.docId ++ (leBytes 4 e.blockIds.length ++
          (putU64s e.blockIds ++ [if e.hasBlob then 1 else 0, e.scope.toByte])))))) := by
      simp only [body, bodyTail, if_pos h]
    have hlen : (body e).length = 25 + e.docId.length + 8 * e.blockIds.length := by rw [length_body, if_pos h]
    rw [parseBody_of_fields e.state e.txnId e.timestampMs.toUInt64 hdid (by omega) hp, stored_pending h]
    have hdrop := drop_fields hp
    have hscope : (body e).drop (23 + e.docId.length + e.blockIds.length * 8 + 1) = [e.scope.toByte] :=
      drop_step (show _ = [if e.hasBlob then 1 else 0] ++ _ from hdrop)
    unfold parseTail
    simp only [if_pos h]
    rw [if_neg (by omega), getLE_one_of_drop (by omega) hdrop, ok_bind, if_pos (by omega),
      getLE_one_of_drop (by omega) hscope, ok_bind]
    obtain ⟨state, txnId, timestampMs, docId, blockIds, hasBlob, scope⟩ := e
    have hblob : (((if hasBlob then 1 else 0 : UInt8).toNat) != 0) = hasBlob := by cases hasBlob <;> rfl
    have hscope : Scope.ofRaw scope.toByte.toNat = scope := by cases scope <;> rfl
    simp only [Int64.toInt64_toUInt64, hblob, hscope]
    rfl
  · have hp : body e = [e.state.toByte] ++ (leBytes 8 e.txnId.toNat ++ (leBytes 8 e.timestampMs.toUInt64.toNat ++
        (leBytes 2 ([] : Bytes).length ++ ([] ++ (leBytes 4 ([] : List UInt64).length ++ (putU64s [] ++ [])))))) := by
      simp only [body, bodyTail, if_neg h]
      rfl
    rw [parseBody_of_fields e.state e.txnId e.timestampMs.toUInt64 (by decide) (by decide) hp]
    simp only [parseTail, stored, if_neg h, Int64.toInt64_toUInt64]

theorem parseTail_eq {p : Bytes} {pos : Nat} {e e' : PendingEntry} (h : parseTail p pos e = .ok e') :
    e'.state = e.state ∧ e'.docId = e.docId ∧ e'.blockIds = e.blockIds ∧
      (e.state = .pending → pos + 1 ≤ p.length) := by
  unfold parseTail at h
  by_cases hst : e.state = .pending
  · rw [if_pos hst] at h
    by_cases hpos : p.length < pos + 1
    · rw [if_pos hpos] at h
      cases h
    rw [if_neg hpos] at h
    obtain ⟨rawBlob, -, h⟩ := bind_eq_ok.mp h
    split at h
    · obtain ⟨rawScope, -, h⟩ := bind_eq_ok.mp h
      cases h
      exact ⟨rfl, rfl, rfl, fun _ => by omega⟩
    · cases h
      exact ⟨rfl, rfl, rfl, fun _ => by omega⟩
  · rw [if_neg hst] at h
    cases h
    exact ⟨rfl, rfl, rfl, fun h => absurd h hst⟩

/-- Whatever parses has a `docId` of at most 65535 bytes and its payload inside the body. -/
theorem parseBody_sizes {p : Bytes} {e : PendingEntry} (h : parseBody p = .ok e) :
    e.docId.length < 2 ^ 16 ∧ 23 + e.docId.length + 8 * e.blockIds.length ≤ p.length ∧
      (e.state = .pending → 24 + e.docId.length + 8 * e.blockIds.length ≤ p.length) := by
  unfold parseBody at h
  split at h
  · cases h
  obtain ⟨rawState, -, h⟩ := bind_eq_ok.mp h
  split at h
  · cases h
  obtain ⟨txn, -, h⟩ := bind_eq_ok.mp h
  obtain ⟨ts, -, h⟩ := bind_eq_ok.mp h
  obtain ⟨dlen, hdlen, h⟩ := bind_eq_ok.mp h
  split at h
  · cases h
  obtain ⟨did, hdid, h⟩ := bind_eq_ok.mp h
  obtain ⟨cnt, -, h⟩ := bind_eq_ok.mp h
  split at h
  · cases h
  obtain ⟨ids, hids, h⟩ := bind_eq_ok.mp h
  obtain ⟨hst, hdoc, hblk, htail⟩ := parseTail_eq h
  have hdidlen : did.length = dlen := getBytes_length hdid
  have hdlt : dlen < 256 ^ 2 := getLE_lt hdlen
  have hidslen := getLEs_length hids
  simp only at hst hdoc hblk htail
  rw [hdoc, hblk, hst, List.length_map]
  refine ⟨by omega, by omega, fun hp => ?_⟩
  have := htail hp
  omega

/-! ## The codec -/

/-- The body layout as a frame format of `Lib`. -/
def format : BodyFormat PendingEntry where
  sum := crc32Nat
  minFollow := kChecksumLen
  body := body
  parse p := (parseBody p).toOption
  Fits := Fits
  stored := stored
  sum_lt := crc32Nat_lt
  min_le := le_refl _
  fits_size := by
    intro e hfit
    rw [length_body, kChecksumLen]
    split
    · obtain ⟨-, hsize⟩ := hfit ‹_›
      omega
    · omega
  parse_body := fun hfit => toOption_eq_some.mpr (parseBody_body hfit)

def codec : Codec PendingEntry := format.codec

theorem deserializeFrom_toOption (data : Bytes) (offset : Nat) :
    (deserializeFrom data offset).toOption = codec.decodeAt data offset :=
  decodeFrame_toOption format parseBody frameErrors rfl rfl data offset

/-- What a decoded record can be: its `docId` and its payload fit a frame. -/
theorem decodeAt_sizes {data : Bytes} {off e' : Nat} {e : PendingEntry} (h : codec.decodeAt data off = some (e, e')) :
    e.docId.length < 2 ^ 16 ∧ (e.state = .pending → 28 + e.docId.length + 8 * e.blockIds.length < 2 ^ 32) := by
  obtain ⟨p, hread, hparse⟩ := format.decodeAt_eq_some.mp h
  obtain ⟨hdid, -, hpend⟩ := parseBody_sizes (toOption_eq_some.mp hparse)
  obtain ⟨-, -, -, hlt⟩ := readFrame_bounds format.min_le hread
  refine ⟨hdid, fun hp => ?_⟩
  have := hpend hp
  omega

/-- A frame of exactly `2^32` bytes behind its prefix states the size zero and is not read. -/
theorem decodeAt_wrapped {e : PendingEntry} (hsize : (body e).length + 4 = 2 ^ 32) (pre post : Bytes) :
    codec.decodeAt (pre ++ (serialize e ++ post)) pre.length = none := by
  cases hd : codec.decodeAt (pre ++ (serialize e ++ post)) pre.length with
  | none => rfl
  | some p =>
    obtain ⟨_, hread, -⟩ := format.decodeAt_eq_some.mp (show _ = some (p.1, p.2) from hd)
    obtain ⟨size, crc, hsz, hmin, -⟩ := readFrame_eq_some hread
    have hpiece := readAt_piece pre (leBytes 4 ((body e).length + 4)) (body e ++ leBytes 4 (crc32Nat (body e)) ++ post)
    rw [← List.append_assoc (leBytes 4 _)] at hpiece
    change readAt (pre ++ (serialize e ++ post)) _ _ = _ at hpiece
    rw [length_leBytes, hsz] at hpiece
    cases hpiece
    rw [leNat_leBytes, hsize] at hmin
    exact absurd hmin (by decide)

theorem fits_of_decode {pre : Bytes} {e : PendingEntry} {e' : Nat}
    (h : codec.decodeAt (pre ++ serialize e) pre.length = some (e, e')) : Fits e := by
  intro hp
  obtain ⟨hdid, hsize⟩ := decodeAt_sizes h
  have hlt := hsize hp
  refine ⟨hdid, ?_⟩
  by_contra hge
  have hbody : (body e).length + 4 = 2 ^ 32 := by
    rw [length_body, if_pos hp]
    omega
  have hnone := decodeAt_wrapped hbody pre []
  rw [List.append_nil, h] at hnone
  cases hnone

end PendingEntry
end Cortrix.Store
