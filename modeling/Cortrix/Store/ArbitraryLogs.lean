import Cortrix.Store.PendingLogWriter
import Cortrix.Store.Phnsw.WalWriter

/-!
# Logs of arbitrary bytes

Both log readers on files nobody wrote.

* `SafeScan` : the scan ends by itself, its records stand in the file one after another, and the file cut behind the
  last one scans to the same records.
-/

namespace Cortrix.Store
open Lib

/-! ## Sizes in `size_t` -/

def add64 (a b : Nat) : Nat := (a + b) % 2 ^ 64

def mul64 (a b : Nat) : Nat := a * b % 2 ^ 64

def sub64 (a b : Nat) : Nat := (a + 2 ^ 64 - b) % 2 ^ 64

theorem add64_eq {a b : Nat} (h : a + b < 2 ^ 64) : add64 a b = a + b := Nat.mod_eq_of_lt h

theorem mul64_eq {a b : Nat} (h : a * b < 2 ^ 64) : mul64 a b = a * b := Nat.mod_eq_of_lt h

theorem sub64_eq {a b : Nat} (ha : a < 2 ^ 64) (h : b ≤ a) : sub64 a b = a - b := by
  unfold sub64
  omega

variable {α : Type} {minFollow : Nat} {r : Except DecodeError (α × Nat)}

theorem bind_congr_ok {ε β : Type} {x : Except ε α} {f g : α → Except ε β} (h : ∀ a, x = .ok a → f a = g a) :
    x >>= f = x >>= g := by
  cases x with
  | error e => rw [error_bind, error_bind]
  | ok a => rw [ok_bind, ok_bind, h a rfl]

/-- `checkFrame` with its sums in `size_t`. -/
def checkFrame64 (minFollow : Nat) (errs : FrameErrors) (data : Bytes) (start : Nat) :
    Except DecodeError (Bytes × Nat) :=
  if data.length < add64 start 4 then .error errs.truncated else do
  let follow ← getLE 4 data start
  if follow < minFollow then .error errs.tooSmall else
  let frameEnd := add64 (add64 start 4) follow
  if data.length < frameEnd then .error errs.overrun else do
  let bodyBegin := add64 start 4
  let bodyLen := sub64 follow 4
  let body ← getBytes data bodyBegin bodyLen
  let storedCrc ← getLE 4 data (add64 bodyBegin bodyLen)
  if storedCrc ≠ crc32Nat body then .error errs.crcMismatch else
  return (body, frameEnd)

/-- The offset is moved on success only. -/
def moveOffset {α : Type} (r : Except DecodeError (α × Nat)) (offset : Nat) : Except DecodeError α × Nat :=
  match r with
  | .ok (a, frameEnd) => (.ok a, frameEnd)
  | .error e => (.error e, offset)

/-- A buffer in memory: its size is a `ptrdiff_t`. -/
def InMemory (data : Bytes) : Prop := data.length < 2 ^ 63

theorem checkFrame64_eq (hmin : 4 ≤ minFollow) (errs : FrameErrors) {data : Bytes} {start : Nat} (hdata : InMemory data)
    (hstart : start ≤ data.length) : checkFrame64 minFollow errs data start = checkFrame minFollow errs data start := by
  unfold InMemory at hdata
  have hpre : add64 start 4 = start + 4 := add64_eq (by omega)
  unfold checkFrame64 checkFrame
  simp only [hpre]
  split
  · rfl
  refine bind_congr_ok fun follow hfollow => ?_
  have hlt := getLE_lt hfollow
  have hend : add64 (start + 4) follow = start + 4 + follow := add64_eq (by omega)
  by_cases hle : follow < minFollow
  · rw [if_pos hle, if_pos hle]
  have hbody : sub64 follow 4 = follow - 4 := sub64_eq (by omega) (by omega)
  have hcrc : add64 (start + 4) (follow - 4) = start + 4 + (follow - 4) := add64_eq (by omega)
  rw [if_neg hle, if_neg hle]
  simp only [hend, hbody, hcrc]

/-- A reader's error is one it reports. -/
structure FrameErrors.Reported (errs : FrameErrors) : Prop where
  truncated : errs.truncated ≠ .outOfBounds
  tooSmall : errs.tooSmall ≠ .outOfBounds
  overrun : errs.overrun ≠ .outOfBounds
  crcMismatch : errs.crcMismatch ≠ .outOfBounds

theorem inside_error {e : DecodeError} (h : e ≠ .outOfBounds) : Inside (.error e : Except DecodeError α) :=
  fun heq => h (Except.error.inj heq)

theorem checkFrame_inside (hmin : 4 ≤ minFollow) {errs : FrameErrors} (herrs : errs.Reported) (data : Bytes)
    (start : Nat) : Inside (checkFrame minFollow errs data start) := by
  unfold checkFrame
  split
  · exact inside_error herrs.truncated
  refine (inside_getLE (by omega)).bind fun follow _ => ?_
  split
  · exact inside_error herrs.tooSmall
  split
  · exact inside_error herrs.overrun
  refine (inside_getBytes (by omega)).bind fun body _ => (inside_getLE (by omega)).bind fun crc _ => ?_
  split
  · exact inside_error herrs.crcMismatch
  · exact inside_ok _

theorem checkFrame_body {start : Nat} (hmin : 4 ≤ minFollow) {errs : FrameErrors} {data : Bytes} {q : Bytes × Nat}
    (h : checkFrame minFollow errs data start = .ok q) : minFollow ≤ q.1.length + 4 ∧ q.1.length + 4 < 2 ^ 32 := by
  have hread := checkFrame_toOption hmin errs data start
  rw [h] at hread
  have hread' : readFrame crc32Nat minFollow data start = some (q.1, q.2) := hread.symm
  obtain ⟨pre, crc, -, hle, hbody, -⟩ := readFrame_eq_some hread'
  have hlen := readAt_length hbody
  exact ⟨by omega, (readFrame_bounds hmin hread').2.2.2⟩

/-- What both readers promise on any buffer. -/
structure SafeDecoder {α : Type} (decode : Bytes → Nat → Except DecodeError α × Nat) : Prop where
  inside : ∀ {data off}, InMemory data → off ≤ data.length → Inside (decode data off).1
  advances : ∀ {data off a off'}, InMemory data → off ≤ data.length → decode data off = (.ok a, off') →
    off + 5 ≤ off' ∧ off' ≤ data.length
  stays : ∀ {data off e off'}, InMemory data → off ≤ data.length → decode data off = (.error e, off') → off' = off

theorem moveOffset_ok {off off' : Nat} {a : α} : moveOffset r off = (.ok a, off') ↔ r = .ok (a, off') := by
  cases r <;> simp [moveOffset, Prod.ext_iff]

theorem moveOffset_error {off off' : Nat} {e : DecodeError} (h : moveOffset r off = (.error e, off')) : off' = off := by
  cases r with
  | error e' => exact (Prod.ext_iff.mp h).2.symm
  | ok p => exact absurd (Prod.ext_iff.mp h).1 (by simp [moveOffset])

theorem moveOffset_inside (h : Inside r) (off : Nat) : Inside (moveOffset r off).1 := by
  cases r with
  | error e => exact fun heq => h (congrArg Except.error (Except.error.inj heq))
  | ok p => exact inside_ok p.1

theorem safeDecoder_of {decode : Bytes → Nat → Except DecodeError α × Nat} {errs : FrameErrors}
    {parse : Bytes → Except DecodeError α} (hmin : 4 ≤ minFollow) (herrs : errs.Reported)
    (hparse : ∀ p : Bytes, minFollow ≤ p.length + 4 → Inside (parse p))
    (heq : ∀ data off, InMemory data → off ≤ data.length → decode data off =
      moveOffset (checkFrame minFollow errs data off >>= fun p => parse p.1 >>= fun a => pure (a, p.2)) off) :
    SafeDecoder decode where
  inside := by
    intro data off hdata hoff
    rw [heq data off hdata hoff]
    refine moveOffset_inside ((checkFrame_inside hmin herrs data off).bind fun p hp => ?_) off
    exact (hparse p.1 (checkFrame_body hmin hp).1).bind fun a _ => inside_ok _
  advances := by
    intro data off a off' hdata hoff h
    rw [heq data off hdata hoff, moveOffset_ok] at h
    obtain ⟨p, hp, h⟩ := bind_eq_ok.mp h
    obtain ⟨a', -, h⟩ := bind_eq_ok.mp h
    cases h
    have hread := checkFrame_toOption hmin errs data off
    rw [hp] at hread
    obtain ⟨-, hle, hend, -⟩ := readFrame_bounds hmin (show _ = some (p.1, p.2) from hread.symm)
    omega
  stays := by
    intro data off e off' hdata hoff h
    rw [heq data off hdata hoff] at h
    exact moveOffset_error h

/-! ## pending.wal -/

namespace PendingEntry

def parseTail64 (p : Bytes) (pos : Nat) (e : PendingEntry) : Except DecodeError PendingEntry :=
  if e.state = .pending then
    if p.length < add64 pos 1 then .error (corrupted "has_blob overruns body") else do
    let rawBlob ← getLE 1 p pos
    let pos := add64 pos 1
    if add64 pos 1 ≤ p.length then do
      let rawScope ← getLE 1 p pos
      return { e with hasBlob := rawBlob != 0, scope := Scope.ofRaw rawScope }
    else return { e with hasBlob := rawBlob != 0 }
  else .ok e

def parseBody64 (p : Bytes) : Except DecodeError PendingEntry :=
  if p.length < kBodyHeadLen then .error (corrupted "body shorter than header") else do
  let rawState ← getLE 1 p 0
  match State.ofRaw rawState with
  | none => .error (corrupted "unknown entry_type")
  | some state =>
    let txnId ← getLE 8 p 1
    let timestamp ← getLE 8 p 9
    let docIdLen ← getLE 2 p 17
    let pos := 19
    if p.length < add64 (add64 pos docIdLen) kBlockCountLen then .error (corrupted "doc_id overruns body") else do
    let docId ← getBytes p pos docIdLen
    let pos := add64 pos docIdLen
    let blockCount ← getLE 4 p pos
    let pos := add64 pos kBlockCountLen
    let idBytes := mul64 blockCount 8
    if p.length < add64 pos idBytes then .error (corrupted "block_ids overrun body") else do
    let rawIds ← getLEs 8 p pos blockCount
    parseTail64 p (add64 pos idBytes)
      { state, txnId := UInt64.ofNat txnId, timestampMs := (UInt64.ofNat timestamp).toInt64, docId,
        blockIds := rawIds.map UInt64.ofNat }

/-- `DeserializeFrom`: the record at `offset`, and the offset it leaves. -/
def deserializeAt (data : Bytes) (offset : Nat) : Except DecodeError PendingEntry × Nat :=
  moveOffset (do
    let (body, frameEnd) ← checkFrame64 kChecksumLen frameErrors data offset
    let e ← parseBody64 body
    return (e, frameEnd)) offset

variable {pos : Nat} {p : Bytes} {e : PendingEntry}

theorem parseTail64_eq (p : Bytes) (e : PendingEntry) (hpos : pos < 2 ^ 63) :
    parseTail64 p pos e = parseTail p pos e := by
  have h1 : add64 pos 1 = pos + 1 := add64_eq (by omega)
  have h2 : add64 (pos + 1) 1 = pos + 2 := add64_eq (by omega)
  unfold parseTail64 parseTail
  simp only [h1, h2]

theorem parseBody64_eq (p : Bytes) : parseBody64 p = parseBody p := by
  unfold parseBody64 parseBody
  split
  · rfl
  refine bind_congr_ok fun rawState _ => ?_
  cases State.ofRaw rawState with
  | none => rfl
  | some state =>
    dsimp only
    refine bind_congr_ok fun txnId _ => bind_congr_ok fun timestamp _ => bind_congr_ok fun docIdLen hdoc => ?_
    have hlt := getLE_lt hdoc
    have hpos : add64 19 docIdLen = 19 + docIdLen := add64_eq (by omega)
    have hcnt : add64 (19 + docIdLen) kBlockCountLen = 23 + docIdLen := by
      rw [add64_eq (by rw [kBlockCountLen]; omega), kBlockCountLen]
      omega
    rw [hpos, hcnt, show 19 + docIdLen + kBlockCountLen = 23 + docIdLen by rw [kBlockCountLen]; omega]
    split
    · rfl
    refine bind_congr_ok fun docId _ => bind_congr_ok fun blockCount hblocks => ?_
    have hblt := getLE_lt hblocks
    have hmul : mul64 blockCount 8 = blockCount * 8 := mul64_eq (by omega)
    have hend : add64 (23 + docIdLen) (blockCount * 8) = 23 + docIdLen + blockCount * 8 := add64_eq (by omega)
    rw [hmul, hend]
    split
    · rfl
    refine bind_congr_ok fun rawIds _ => ?_
    rw [parseTail64_eq _ _ (by omega)]

theorem deserializeAt_eq {data : Bytes} {offset : Nat} (hdata : InMemory data) (hoff : offset ≤ data.length) :
    deserializeAt data offset = moveOffset (deserializeFrom data offset) offset := by
  unfold deserializeAt deserializeFrom
  rw [checkFrame64_eq (by decide) frameErrors hdata hoff]
  simp only [parseBody64_eq]

theorem parseBody_inside (p : Bytes) : Inside (parseBody p) := by
  unfold parseBody
  split
  · exact inside_status _
  rename_i hhead
  rw [kBodyHeadLen] at hhead
  refine (inside_getLE (by omega)).bind fun rawState _ => ?_
  cases State.ofRaw rawState with
  | none => exact inside_status _
  | some state =>
    refine (inside_getLE (by omega)).bind fun txnId _ => (inside_getLE (by omega)).bind fun timestamp _ =>
      (inside_getLE (by omega)).bind fun docIdLen _ => ?_
    split
    · exact inside_status _
    rename_i hdoc
    rw [kBlockCountLen] at hdoc
    refine (inside_getBytes (by omega)).bind fun docId _ => (inside_getLE (by omega)).bind fun blockCount _ => ?_
    split
    · exact inside_status _
    refine (inside_getLEs (by omega)).bind fun rawIds _ => ?_
    unfold parseTail
    split
    · split
      · exact inside_status _
      refine (inside_getLE (by omega)).bind fun rawBlob _ => ?_
      split
      · exact (inside_getLE (by omega)).bind fun rawScope _ => inside_ok _
      · exact inside_ok _
    · exact inside_ok _

theorem reported_frameErrors : frameErrors.Reported := ⟨nofun, nofun, nofun, nofun⟩

theorem safeDecoder : SafeDecoder deserializeAt :=
  safeDecoder_of (by decide) reported_frameErrors (fun p _ => parseBody_inside p)
    fun _ _ hdata hoff => deserializeAt_eq hdata hoff

/-! ### What a body says -/

/-- The fields of a body in front of its flags, whatever the state of the record. -/
def fieldBytes (e : PendingEntry) : Bytes :=
  [e.state.toByte] ++ (leBytes 8 e.txnId.toNat ++ (leBytes 8 e.timestampMs.toUInt64.toNat ++
    (leBytes 2 e.docId.length ++ (e.docId ++ (leBytes 4 e.blockIds.length ++ putU64s e.blockIds)))))

/-- The flags of a PENDING body: `has_blob`, then the optional `scope`; what follows is ignored. -/
def readFlags : Bytes → Option (Bool × Scope)
  | [] => none
  | [blob] => some (blob != 0, .document)
  | blob :: scope :: _ => some (blob != 0, Scope.ofRaw scope.toNat)

/-- The body spells the fields of the record one after another; only a PENDING record reads its flags. -/
structure Spells (e : PendingEntry) (p : Bytes) (flags : Bytes) : Prop where
  fields : p = fieldBytes e ++ flags
  pending : e.state = .pending → readFlags flags = some (e.hasBlob, e.scope)
  terminal : e.state ≠ .pending → e.hasBlob = false ∧ e.scope = .document

theorem State.ofRaw_eq_some {n : Nat} {st : State} (h : State.ofRaw n = some st) : leBytes 1 n = [st.toByte] := by
  unfold State.ofRaw at h
  split at h <;> cases h <;> rfl

theorem cons_of_getLE {n : Nat} (h : getLE 1 p pos = .ok n) :
    ∃ b : UInt8, b.toNat = n ∧ p.drop pos = b :: p.drop (pos + 1) := by
  have hn := getLE_lt h
  refine ⟨UInt8.ofNat n, UInt8.toNat_ofNat_of_lt' hn, ?_⟩
  rw [drop_of_getLE h]
  rfl

theorem toNat_bne_zero (b : UInt8) : (b.toNat != 0) = (b != 0) := by
  rw [Bool.eq_iff_iff, bne_iff_ne, bne_iff_ne, ne_eq, ne_eq, ← UInt8.toNat_inj]
  rfl

theorem parseTail_flags {e' : PendingEntry} (h : parseTail p pos e = .ok e') (hp : e.state = .pending)
    (hdoc : e.scope = .document) : readFlags (p.drop pos) = some (e'.hasBlob, e'.scope) := by
  unfold parseTail at h
  rw [if_pos hp] at h
  split at h
  · cases h
  obtain ⟨rawBlob, hblob, h⟩ := bind_eq_ok.mp h
  obtain ⟨blob, rfl, hdrop⟩ := cons_of_getLE hblob
  split at h
  · obtain ⟨rawScope, hscope, h⟩ := bind_eq_ok.mp h
    obtain ⟨scope, rfl, hdrop'⟩ := cons_of_getLE hscope
    cases h
    rw [hdrop, hdrop', readFlags, toNat_bne_zero]
  · rename_i hlen
    cases h
    have hnil : p.drop (pos + 1) = [] := List.drop_eq_nil_of_le (by omega)
    rw [hdrop, hnil, readFlags, toNat_bne_zero, hdoc]

theorem parseTail_frame {e' : PendingEntry} (h : parseTail p pos e = .ok e') :
    fieldBytes e' = fieldBytes e ∧ e'.state = e.state ∧ (e.state ≠ .pending → e' = e) := by
  unfold parseTail at h
  split at h
  · rename_i hp
    split at h
    · cases h
    obtain ⟨rawBlob, -, h⟩ := bind_eq_ok.mp h
    split at h
    · obtain ⟨rawScope, -, h⟩ := bind_eq_ok.mp h
      cases h
      exact ⟨rfl, rfl, fun hne => absurd hp hne⟩
    · cases h
      exact ⟨rfl, rfl, fun hne => absurd hp hne⟩
  · cases h
    exact ⟨rfl, rfl, fun _ => rfl⟩

theorem parseBody_spells (h : parseBody p = .ok e) : ∃ flags, Spells e p flags := by
  unfold parseBody at h
  split at h
  · cases h
  obtain ⟨rawState, hstate, h⟩ := bind_eq_ok.mp h
  split at h
  · cases h
  rename_i state hraw
  obtain ⟨txn, htxn, h⟩ := bind_eq_ok.mp h
  obtain ⟨ts, hts, h⟩ := bind_eq_ok.mp h
  obtain ⟨dlen, hdlen, h⟩ := bind_eq_ok.mp h
  split at h
  · cases h
  obtain ⟨did, hdid, h⟩ := bind_eq_ok.mp h
  obtain ⟨cnt, hcnt, h⟩ := bind_eq_ok.mp h
  split at h
  · cases h
  obtain ⟨ids, hids, h⟩ := bind_eq_ok.mp h
  obtain ⟨hfields, hst, hterm⟩ := parseTail_frame h
  have hpos : 23 + dlen + cnt * 8 = 23 + dlen + 8 * cnt := by omega
  refine ⟨p.drop (23 + dlen + cnt * 8), ?_, ?_, ?_⟩
  · have h0 := drop_of_getLE hstate
    rw [State.ofRaw_eq_some hraw] at h0
    have htxn64 : (UInt64.ofNat txn).toNat = txn := UInt64.toNat_ofNat_of_lt' (getLE_lt htxn)
    have hts64 : (UInt64.ofNat ts).toNat = ts := UInt64.toNat_ofNat_of_lt' (getLE_lt hts)
    have hids64 : putU64s (ids.map UInt64.ofNat) = putLEs 8 ids := by
      rw [putU64s, ofNat_map_toNat (getLEs_lt hids)]
    have hdrop := drop_of_getLEs hids
    rw [hfields, fieldBytes]
    rw [UInt64.toUInt64_toInt64, htxn64, hts64, getBytes_length hdid, List.length_map, getLEs_length hids, hids64, hpos]
    calc p = p.drop 0 := rfl
      _ = [state.toByte] ++ (leBytes 8 txn ++ (leBytes 8 ts ++ (leBytes 2 dlen ++ (did ++ (leBytes 4 cnt ++
          (putLEs 8 ids ++ p.drop (23 + dlen + 8 * cnt))))))) := by
        rw [h0, drop_of_getLE htxn, drop_of_getLE hts, drop_of_getLE hdlen, drop_of_getBytes hdid,
          drop_of_getLE hcnt, show 19 + dlen + 4 = 23 + dlen by omega, hdrop]
      _ = _ := by simp only [List.append_assoc]
  · intro hp
    rw [hst] at hp
    exact parseTail_flags h hp rfl
  · intro hne
    rw [hst] at hne
    rw [hterm hne]
    exact ⟨rfl, rfl⟩

/-- The spelling the writer gives a record: its flags behind the fields, and no payload behind a terminal state. -/
def Canonical (e : PendingEntry) (flags : Bytes) : Prop :=
  if e.state = .pending then [if e.hasBlob then 1 else 0, e.scope.toByte] <+: flags
  else e.docId = [] ∧ e.blockIds = []

theorem Spells.body_prefix {flags : Bytes} (h : Spells e p flags) (hc : Canonical e flags) : body e <+: p := by
  unfold Canonical at hc
  split at hc
  · rename_i hp
    obtain ⟨rest, hrest⟩ := hc
    refine ⟨rest, ?_⟩
    rw [h.fields, ← hrest, fieldBytes, body, bodyTail]
    simp only [if_pos hp, List.append_assoc]
  · rename_i hp
    obtain ⟨hdoc, hids⟩ := hc
    refine ⟨flags, ?_⟩
    rw [h.fields, fieldBytes, body, bodyTail, hdoc, hids]
    simp only [if_neg hp, List.append_assoc, List.length_nil]
    rfl

/-- A frame of the file: size, body, checksum, and the body spells the record. -/
def FrameOf (e : PendingEntry) (bs : Bytes) : Prop := ∃ p flags, bs = frame crc32Nat p ∧ Spells e p flags

theorem frameOf_decodeAt {data : Bytes} {off off' : Nat} (h : codec.decodeAt data off = some (e, off')) :
    ∃ bs, FrameOf e bs ∧ data.drop off = bs ++ data.drop off' := by
  obtain ⟨p, hread, hparse⟩ := format.decodeAt_eq_some.mp h
  obtain ⟨flags, hspells⟩ := parseBody_spells (toOption_eq_some.mp hparse)
  exact ⟨_, ⟨p, flags, rfl, hspells⟩, drop_of_readFrame format.min_le hread⟩

end PendingEntry

/-! ## hnsw.wal -/

namespace Phnsw.WalEntry

def parseBody64 (expectedDim : Nat) (p : Bytes) : Except DecodeError WalEntry := do
  let typeRaw ← getLE 1 p 0
  match Kind.ofRaw typeRaw with
  | none => .error (corrupted "WalEntry: unknown entry_type")
  | some type =>
    let timestamp ← getLE 8 p 1
    let blockId ← getLE 8 p 9
    let e : WalEntry :=
      { type, timestampMs := (UInt64.ofNat timestamp).toInt64, blockId := UInt64.ofNat blockId }
    match type with
    | .insert =>
      let vecBytes := sub64 p.length kFixedBodyBytes
      if vecBytes % 4 ≠ 0 then .error (corrupted "WalEntry: INSERT vector not float-aligned") else
      let vecDim := vecBytes / 4
      if 0 < expectedDim ∧ vecDim ≠ expectedDim then
        .error (.status (phnswStatus .invalidArgument PhnswErrors.kVectorDimMismatch
          "WalEntry: INSERT dim mismatch")) else do
      let bits ← getLEs 4 p kFixedBodyBytes vecDim
      return { e with vector := bits.map UInt32.ofNat }
    | .delete =>
      if p.length ≠ kFixedBodyBytes then
        .error (corrupted "WalEntry: DELETE carries unexpected payload") else
      return e

/-- `DeserializeFrom`: the record at `offset`, and the offset it leaves. -/
def deserializeAt (expectedDim : Nat) (data : Bytes) (offset : Nat) : Except DecodeError WalEntry × Nat :=
  moveOffset (do
    let (body, frameEnd) ← checkFrame64 (kFixedBodyBytes + kCrcBytes) frameErrors data offset
    let e ← parseBody64 expectedDim body
    return (e, frameEnd)) offset

theorem parseBody64_eq (dim : Nat) {p : Bytes} (hmin : kFixedBodyBytes ≤ p.length) (hmax : p.length < 2 ^ 64) :
    parseBody64 dim p = parseBody dim p := by
  unfold parseBody64 parseBody
  refine bind_congr_ok fun typeRaw _ => ?_
  cases Kind.ofRaw typeRaw with
  | none => rfl
  | some type =>
    refine bind_congr_ok fun timestamp _ => bind_congr_ok fun blockId _ => ?_
    cases type with
    | insert => dsimp only; rw [sub64_eq hmax hmin]
    | delete => rfl

theorem deserializeAt_eq (dim : Nat) {data : Bytes} {offset : Nat} (hdata : InMemory data)
    (hoff : offset ≤ data.length) :
    deserializeAt dim data offset = moveOffset (deserializeFrom dim data offset) offset := by
  have hmin : 4 ≤ kFixedBodyBytes + kCrcBytes := by decide
  unfold deserializeAt deserializeFrom
  rw [checkFrame64_eq hmin frameErrors hdata hoff]
  refine congrArg (fun r => moveOffset r offset) (bind_congr_ok fun q hq => ?_)
  obtain ⟨hlo, hhi⟩ := checkFrame_body hmin hq
  rw [kFixedBodyBytes, kCrcBytes] at hlo
  dsimp only
  rw [parseBody64_eq dim (by rw [kFixedBodyBytes]; omega) (by omega)]

theorem parseBody_inside (dim : Nat) {p : Bytes} (hp : kFixedBodyBytes ≤ p.length) : Inside (parseBody dim p) := by
  rw [kFixedBodyBytes] at hp
  unfold parseBody
  refine (inside_getLE (by omega)).bind fun typeRaw _ => ?_
  cases Kind.ofRaw typeRaw with
  | none => exact inside_status _
  | some type =>
    refine (inside_getLE (by omega)).bind fun timestamp _ => (inside_getLE (by omega)).bind fun blockId _ => ?_
    cases type with
    | insert =>
      dsimp only
      split
      · exact inside_status _
      split
      · exact inside_status _
      exact (inside_getLEs (by rw [kFixedBodyBytes]; omega)).bind fun bits _ => inside_ok _
    | delete =>
      dsimp only
      split
      · exact inside_status _
      · exact inside_ok _

theorem reported_frameErrors : frameErrors.Reported := ⟨nofun, nofun, nofun, nofun⟩

theorem safeDecoder (dim : Nat) : SafeDecoder (deserializeAt dim) := by
  have hmin : 4 ≤ kFixedBodyBytes + kCrcBytes := by decide
  have hparse : ∀ p : Bytes, kFixedBodyBytes + kCrcBytes ≤ p.length + 4 → Inside (parseBody dim p) := by
    intro p hp
    rw [kCrcBytes] at hp
    exact parseBody_inside dim (by omega)
  exact safeDecoder_of hmin reported_frameErrors hparse fun _ _ hdata hoff => deserializeAt_eq dim hdata hoff

theorem Kind.ofRaw_eq_some {n : Nat} {k : Kind} (h : Kind.ofRaw n = some k) : leBytes 1 n = [k.toByte] := by
  unfold Kind.ofRaw at h
  split at h <;> cases h <;> rfl

theorem parseBody_spells {dim : Nat} {p : Bytes} {e : WalEntry} (h : parseBody dim p = .ok e) :
    p = body e ∧ (e.type = .delete → e.vector = []) := by
  unfold parseBody at h
  obtain ⟨typeRaw, htype, h⟩ := bind_eq_ok.mp h
  split at h
  · cases h
  rename_i type hraw
  obtain ⟨ts, hts, h⟩ := bind_eq_ok.mp h
  obtain ⟨id, hid, h⟩ := bind_eq_ok.mp h
  have h0 := drop_of_getLE htype
  rw [Kind.ofRaw_eq_some hraw] at h0
  have hts64 : (UInt64.ofNat ts).toNat = ts := UInt64.toNat_ofNat_of_lt' (getLE_lt hts)
  have hid64 : (UInt64.ofNat id).toNat = id := UInt64.toNat_ofNat_of_lt' (getLE_lt hid)
  have hhead : p = [type.toByte] ++ (leBytes 8 ts ++ (leBytes 8 id ++ p.drop 17)) := by
    calc p = p.drop 0 := rfl
      _ = _ := by rw [h0, drop_of_getLE hts, drop_of_getLE hid]
  have hlen := congrArg List.length hhead
  simp only [List.length_append, length_leBytes, List.length_cons, List.length_nil, List.length_drop] at hlen
  cases type with
  | insert =>
    dsimp only at h
    split at h
    · cases h
    rename_i haligned
    split at h
    · cases h
    obtain ⟨bits, hbits, h⟩ := bind_eq_ok.mp h
    cases h
    have hdrop := drop_of_getLEs hbits
    rw [kFixedBodyBytes] at haligned hdrop
    have hend : p.drop (17 + 4 * ((p.length - 17) / 4)) = [] := List.drop_eq_nil_of_le (by omega)
    rw [hend, List.append_nil] at hdrop
    have hvec : (bits.map UInt32.ofNat).map UInt32.toNat = bits := by
      rw [List.map_map]
      conv_rhs => rw [← List.map_id bits]
      exact List.map_congr_left fun n hn => UInt32.toNat_ofNat_of_lt' (getLEs_lt hbits n hn)
    refine ⟨?_, nofun⟩
    unfold body
    rw [UInt64.toUInt64_toInt64, hts64, hid64, hvec, if_pos rfl, ← hdrop]
    exact hhead
  | delete =>
    dsimp only at h
    split at h
    · cases h
    rename_i hbare
    cases h
    rw [kFixedBodyBytes] at hbare
    have hend : p.drop 17 = [] := List.drop_eq_nil_of_le (by omega)
    refine ⟨?_, fun _ => rfl⟩
    unfold body
    dsimp only
    rw [UInt64.toUInt64_toInt64, hts64, hid64, if_neg (by simp)]
    rwa [hend] at hhead

/-- The record written again by the writer's functions at the time `now`. -/
def reserialize (e : WalEntry) (now : Int64) : Bytes :=
  match e.type with
  | .insert => serializeInsert e.blockId e.vector e.timestampMs now
  | .delete => serializeDelete e.blockId e.timestampMs now

/-- A frame of the file is the frame of its record; written again it is the same unless its time is negative. -/
def FrameOf (e : WalEntry) (bs : Bytes) : Prop :=
  bs = serialize e ∧ ∀ now, 0 ≤ e.timestampMs → bs = reserialize e now

theorem frameOf_decodeAt {dim : Nat} {data : Bytes} {off off' : Nat} {e : WalEntry}
    (h : (codec dim).decodeAt data off = some (e, off')) :
    ∃ bs, FrameOf e bs ∧ data.drop off = bs ++ data.drop off' := by
  obtain ⟨p, hread, hparse⟩ := (format dim).decodeAt_eq_some.mp h
  obtain ⟨rfl, hbare⟩ := parseBody_spells (toOption_eq_some.mp hparse)
  refine ⟨_, ⟨rfl, fun now hts => ?_⟩, drop_of_readFrame (format dim).min_le hread⟩
  obtain ⟨type, timestampMs, blockId, vector⟩ := e
  cases type with
  | insert =>
    unfold reserialize serializeInsert nowMsOrGiven
    rw [if_pos hts]
  | delete =>
    obtain rfl := hbare rfl
    unfold reserialize serializeDelete nowMsOrGiven
    dsimp only at hts ⊢
    rw [if_pos hts]

end Phnsw.WalEntry

/-! ## The scans -/

/-- The record the loop takes at `off`, and where it goes on. -/
def nextRecord {α : Type} (decode : Bytes → Nat → Except DecodeError α × Nat) (image : Bytes) (off : Nat) :
    Option (α × Nat) :=
  match decode image off with
  | (.ok a, off') => some (a, off')
  | (.error _, _) => none

theorem nextRecord_eq {decode : Bytes → Nat → Except DecodeError α × Nat} {image : Bytes} {off : Nat}
    (h : decode image off = moveOffset r off) : nextRecord decode image off = r.toOption := by
  unfold nextRecord
  rw [h]
  cases r <;> rfl

/-- What a scan from `start` found: the loop ends by itself, because the file does or the next frame is no record; the
records stand in the file one after another; and nothing behind `validEnd` was kept. -/
structure Scanned {α : Type} (decode : Bytes → Nat → Except DecodeError α × Nat) (R : α → Bytes → Prop)
    (image : Bytes) (start : Nat) (found : List α) (validEnd : Nat) : Prop where
  halts : ∀ fuel, image.length ≤ fuel →
    scanLoop (nextRecord decode image) image.length fuel start [] = (found, validEnd)
  stops : validEnd < image.length → nextRecord decode image validEnd = none
  inside : start ≤ validEnd ∧ validEnd ≤ image.length
  pieces : ∃ bss, List.Forall₂ R found bss ∧ image = image.take start ++ bss.flatten ++ image.drop validEnd

theorem scanLoop_congr {next next' : Nat → Option (α × Nat)} {size : Nat} (h : ∀ off < size, next off = next' off)
    (fuel off : Nat) (out : List α) : scanLoop next size fuel off out = scanLoop next' size fuel off out := by
  induction fuel generalizing off out with
  | zero => rfl
  | succ fuel ih =>
    unfold scanLoop
    split
    · rename_i hlt
      rw [h off hlt]
      cases next' off with
      | none => rfl
      | some p => exact ih p.2 _
    · rfl

theorem scanned {c : Codec α} {decode : Bytes → Nat → Except DecodeError α × Nat} {R : α → Bytes → Prop} {image : Bytes}
    {start : Nat} (hdecode : ∀ off ≤ image.length, nextRecord decode image off = c.decodeAt image off)
    (hR : ∀ {o o' a}, c.decodeAt image o = some (a, o') → ∃ bs, R a bs ∧ image.drop o = bs ++ image.drop o')
    (hstart : start ≤ image.length) : Scanned decode R image start (scan c image start).1 (scan c image start).2 := by
  obtain ⟨hparsed, hend⟩ := scan_spec (c := c) image start
  have hle := hparsed.le_length hstart
  refine ⟨fun fuel hfuel => ?_, fun _ => by rw [hdecode _ hle, hend], ⟨hparsed.le, hle⟩, ?_⟩
  · rw [scanLoop_congr fun off hoff => hdecode off (le_of_lt hoff)]
    exact scanLoop_eq hparsed hend fuel (by omega) []
  · obtain ⟨bss, hbss, hdrop⟩ := hparsed.pieces hR
    exact ⟨bss, hbss, by rw [List.append_assoc, ← hdrop, List.take_append_drop]⟩

namespace PendingLogWriter

/-- Where the scan starts: behind the header, or at the end of a file shorter than one. -/
def scanStart (image : Bytes) : Nat := if kHeaderSize ≤ image.length then kHeaderSize else image.length

theorem scanStart_le (image : Bytes) : scanStart image ≤ image.length := by
  unfold scanStart
  split <;> omega

theorem scanRecords_scan (image : Bytes) : scanRecords image = scan PendingEntry.codec image (scanStart image) := by
  unfold scanRecords
  simp only [PendingEntry.deserializeFrom_toOption]
  rfl

theorem scanned_scanRecords {image : Bytes} (h : InMemory image) :
    Scanned PendingEntry.deserializeAt PendingEntry.FrameOf image (scanStart image) (scanRecords image).1
      (scanRecords image).2 := by
  rw [scanRecords_scan]
  refine scanned (fun off hoff => ?_) PendingEntry.frameOf_decodeAt (scanStart_le image)
  rw [nextRecord_eq (PendingEntry.deserializeAt_eq h hoff), PendingEntry.deserializeFrom_toOption]

theorem scanRecords_readAll_any (image : Bytes) :
    scanRecords (readAll image).2 = ((readAll image).1, (readAll image).2.length) := by
  by_cases h : kHeaderSize ≤ image.length
  · exact scanRecords_readAll h
  · have hscan : scanRecords image = ([], image.length) := by
      rw [scanRecords_scan, scanStart, if_neg h]
      exact scan_eq (Parsed.nil _) (Codec.decodeAt_end (le_refl _))
    simp only [readAll, hscan, if_neg (lt_irrefl _)]

end PendingLogWriter

namespace Phnsw.WalWriter

def dimCheck (w : WalWriter) (expectedDim : Nat) : Nat := if 0 < expectedDim then expectedDim else w.dim

theorem scanned_scanRecords (dim : Nat) {image : Bytes} (h : InMemory image) (hlen : kHeaderSize ≤ image.length) :
    Scanned (WalEntry.deserializeAt dim) WalEntry.FrameOf image kHeaderSize (scanRecords dim image).1
      (scanRecords dim image).2 := by
  rw [scanRecords_eq]
  refine scanned (fun off hoff => ?_) WalEntry.frameOf_decodeAt hlen
  rw [nextRecord_eq (WalEntry.deserializeAt_eq dim h hoff), WalEntry.deserializeFrom_toOption]

theorem rewriteHeaderLocked_rest {w : WalWriter} (h : kHeaderSize ≤ w.image.length) :
    (rewriteHeaderLocked w none).1.image.length = w.image.length ∧
      (rewriteHeaderLocked w none).1.image.drop kHeaderSize = w.image.drop kHeaderSize := by
  have himage : (rewriteHeaderLocked w none).1.image =
      makeHeader w.dim w.entryCount w.committedLsn ++ w.image.drop kHeaderSize := by
    unfold rewriteHeaderLocked Store.overwrite
    rw [length_makeHeader]
  have hdr := length_makeHeader w.dim w.entryCount w.committedLsn
  rw [himage]
  constructor
  · rw [List.length_append, hdr, List.length_drop]
    omega
  · rw [← hdr, List.drop_left]

theorem scanRecords_readAll_any {w : WalWriter} (expectedDim : Nat) (h : kHeaderSize ≤ w.image.length) :
    (readAll w expectedDim).1 = (scanRecords (dimCheck w expectedDim) w.image).1 ∧
      scanRecords (dimCheck w expectedDim) (readAll w expectedDim).2.image =
        ((readAll w expectedDim).1, (readAll w expectedDim).2.image.length) := by
  obtain ⟨hlo, hhi⟩ := scanRecords_le (dimCheck w expectedDim) h
  have htake := @scanRecords_take _ (dimCheck w expectedDim) h
  unfold readAll
  rw [if_neg (by omega), ← dimCheck]
  dsimp only
  by_cases hcut : (scanRecords (dimCheck w expectedDim) w.image).2 < w.image.length
  · rw [if_pos (.inl hcut), if_pos hcut]
    generalize hw : ({ w with image := w.image.take _, entryCount := _, committedLsn := _ } : WalWriter) = w'
    have himage : w'.image = w.image.take (scanRecords (dimCheck w expectedDim) w.image).2 := by rw [← hw]
    have hlen : kHeaderSize ≤ w'.image.length := by
      rw [himage, List.length_take]
      omega
    obtain ⟨hlength, hrest⟩ := rewriteHeaderLocked_rest hlen
    refine ⟨rfl, ?_⟩
    rw [scanRecords_congr _ (by omega) hlen hrest, hlength, himage]
    exact htake
  · have hend : (scanRecords (dimCheck w expectedDim) w.image).2 = w.image.length := by omega
    have hwhole : scanRecords (dimCheck w expectedDim) w.image =
        ((scanRecords (dimCheck w expectedDim) w.image).1, w.image.length) := Prod.ext rfl hend
    by_cases htrust : w.headerTrusted = false
    · rw [if_pos (.inr htrust), if_neg hcut]
      generalize hw : ({ w with image := w.image, entryCount := _, committedLsn := _ } : WalWriter) = w'
      have himage : w'.image = w.image := by rw [← hw]
      have hlen : kHeaderSize ≤ w'.image.length := by rw [himage]; exact h
      obtain ⟨hlength, hrest⟩ := rewriteHeaderLocked_rest hlen
      refine ⟨rfl, ?_⟩
      rw [scanRecords_congr _ (by omega) hlen hrest, hlength, himage]
      exact hwhole
    · rw [if_neg (not_or.mpr ⟨hcut, htrust⟩)]
      exact ⟨rfl, hwhole⟩

end Phnsw.WalWriter

/-! ## Both logs -/

/-- On any buffer both readers stay inside it and move the offset past the frame or not at all; on any file both scans
end, return records that stand there one after another, and leave a file that scans to the same records. Written again,
a record of pending.wal is the front of its body when the body has the writer's spelling. -/
theorem logs_of_any_bytes :
    SafeDecoder PendingEntry.deserializeAt ∧
    (∀ dim, SafeDecoder (Phnsw.WalEntry.deserializeAt dim)) ∧
    (∀ image, InMemory image →
      Scanned PendingEntry.deserializeAt PendingEntry.FrameOf image (PendingLogWriter.scanStart image)
        (PendingLogWriter.readAll image).1 (PendingLogWriter.scanRecords image).2 ∧
      PendingLogWriter.scanRecords (PendingLogWriter.readAll image).2 =
        ((PendingLogWriter.readAll image).1, (PendingLogWriter.readAll image).2.length)) ∧
    (∀ (w : Phnsw.WalWriter) (expectedDim : Nat), InMemory w.image →
      Phnsw.WalWriter.kHeaderSize ≤ w.image.length →
      Scanned (Phnsw.WalEntry.deserializeAt (w.dimCheck expectedDim)) Phnsw.WalEntry.FrameOf w.image
        Phnsw.WalWriter.kHeaderSize (w.readAll expectedDim).1
        (Phnsw.WalWriter.scanRecords (w.dimCheck expectedDim) w.image).2 ∧
      Phnsw.WalWriter.scanRecords (w.dimCheck expectedDim) (w.readAll expectedDim).2.image =
        ((w.readAll expectedDim).1, (w.readAll expectedDim).2.image.length)) ∧
    (∀ (w : Phnsw.WalWriter) (expectedDim : Nat), w.image.length < Phnsw.WalWriter.kHeaderSize →
      w.readAll expectedDim = ([], w)) ∧
    (∀ (e : PendingEntry) (p flags : Bytes), PendingEntry.Spells e p flags → PendingEntry.Canonical e flags →
      PendingEntry.body e <+: p) := by
  refine ⟨PendingEntry.safeDecoder, Phnsw.WalEntry.safeDecoder, fun image h => ⟨?_, ?_⟩, fun w expectedDim h hlen => ?_,
    fun w expectedDim hlen => ?_, fun e p flags h hc => h.body_prefix hc⟩
  · exact PendingLogWriter.scanned_scanRecords h
  · exact PendingLogWriter.scanRecords_readAll_any image
  · obtain ⟨hfound, hfixed⟩ := Phnsw.WalWriter.scanRecords_readAll_any expectedDim hlen
    refine ⟨?_, hfixed⟩
    rw [hfound]
    exact Phnsw.WalWriter.scanned_scanRecords (w.dimCheck expectedDim) h hlen
  · unfold Phnsw.WalWriter.readAll
    rw [if_pos hlen]

/-- Three bytes behind the header are no record and are cut off. -/
theorem logs_of_any_bytes_garbage :
    PendingLogWriter.scanRecords (PendingLogWriter.readAll (PendingLogWriter.makeHeader ++ [1, 2, 3])).2 =
      ([], PendingLogWriter.makeHeader.length) := by
  have hgarbage : InMemory (PendingLogWriter.makeHeader ++ [1, 2, 3]) := show 35 < 2 ^ 63 by decide
  rw [(logs_of_any_bytes.2.2.1 _ hgarbage).2]
  decide +kernel

/-- A record whose scope byte, 7, is none the writer knows. -/
def scope7Entry : PendingEntry := { txnId := 1, docId := [0x64], blockIds := [7], hasBlob := true }

def scope7Body : Bytes := PendingEntry.fieldBytes scope7Entry ++ [1, 7]

/-- It is read as a record of scope `document`, and written again its body has another byte there. -/
theorem scope7_not_rewritten :
    (PendingLogWriter.readAll (PendingLogWriter.makeHeader ++ frame crc32Nat scope7Body)).1 = [scope7Entry] ∧
      ¬ ∃ junk, frame crc32Nat scope7Body = frame crc32Nat (PendingEntry.body scope7Entry ++ junk) := by
  refine ⟨by decide +kernel, ?_⟩
  rintro ⟨junk, h⟩
  have hbody := congrArg (fun bs => (bs.drop 4).take 34) h
  dsimp only [frame] at hbody
  rw [List.drop_left' (length_leBytes 4 _), List.drop_left' (length_leBytes 4 _), List.append_assoc,
    List.take_append_of_le_length (show 34 ≤ (PendingEntry.body scope7Entry).length by decide)] at hbody
  revert hbody
  decide

end Cortrix.Store
