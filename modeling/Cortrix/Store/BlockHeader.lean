import Cortrix.Store.Crc32

/-!
# The block header

A stored block is a packed 128-byte header and the payload behind it.
-/

namespace Cortrix.Store
open Lib

/-! ## Types and constants -/

inductive BlockType
  | file | scan | database | audio | video | image | memory | metaBlock | hypeQuestion | docSummary

def BlockType.toUInt16 : BlockType → UInt16
  | .file => 1
  | .scan => 2
  | .database => 3
  | .audio => 4
  | .video => 5
  | .image => 6
  | .memory => 7
  | .metaBlock => 8
  | .hypeQuestion => 16
  | .docSummary => 17

inductive ProcessingLevel
  | l0 | l1 | l2 | l3 | l4
  deriving DecidableEq

def ProcessingLevel.toUInt8 : ProcessingLevel → UInt8
  | .l0 => 0
  | .l1 => 1
  | .l2 => 2
  | .l3 => 3
  | .l4 => 4

def kFlagHasContent : UInt8 := 0x01
def kFlagHasVector : UInt8 := 0x02
def kFlagHasFts : UInt8 := 0x04
def kFlagHasMetadata : UInt8 := 0x08
def kFlagHasChain : UInt8 := 0x10

def kBlockMagic : UInt32 := 0x43525458
def kHeaderVersion : UInt16 := 1
def kHeaderSize : UInt16 := 128

/-- `cortrix_block_header_t`; the 41 reserved bytes are always zero. -/
structure BlockHeader where
  magic : UInt32 := 0
  headerVersion : UInt16 := 0
  headerSize : UInt16 := 0
  blockType : UInt16 := 0
  processingLevel : UInt8 := 0
  flags : UInt8 := 0
  contentOffset : UInt32 := 0
  contentLength : UInt32 := 0
  metadataOffset : UInt32 := 0
  metadataLength : UInt32 := 0
  chainOffset : UInt32 := 0
  chainLength : UInt32 := 0
  totalSize : UInt32 := 0
  contentHashHigh : UInt64 := 0
  contentHashLow : UInt64 := 0
  embeddingModelId : UInt32 := 0
  vectorDim : UInt16 := 0
  chunkStrategyId : UInt16 := 0
  createdAtUs : UInt64 := 0
  updatedAtUs : UInt64 := 0
  crc32 : UInt32 := 0
  flagsExt : UInt8 := 0
  enrichmentSource : UInt8 := 0
  compressionAlgo : UInt8 := 0

/-! ## The packed struct -/

/-- The fields in front of the checksum (offsets 0 to 79), each with its width. -/
def BlockHeader.front (h : BlockHeader) : List (Nat × Nat) :=
  [(4, h.magic.toNat), (2, h.headerVersion.toNat), (2, h.headerSize.toNat), (2, h.blockType.toNat),
    (1, h.processingLevel.toNat), (1, h.flags.toNat), (4, h.contentOffset.toNat), (4, h.contentLength.toNat),
    (4, h.metadataOffset.toNat), (4, h.metadataLength.toNat), (4, h.chainOffset.toNat), (4, h.chainLength.toNat),
    (4, h.totalSize.toNat), (8, h.contentHashHigh.toNat), (8, h.contentHashLow.toNat),
    (4, h.embeddingModelId.toNat), (2, h.vectorDim.toNat), (2, h.chunkStrategyId.toNat), (8, h.createdAtUs.toNat),
    (8, h.updatedAtUs.toNat)]

/-- The fields behind it (offsets 84 to 127). -/
def BlockHeader.back (h : BlockHeader) : List (Nat × Nat) :=
  [(1, h.flagsExt.toNat), (1, h.enrichmentSource.toNat), (1, h.compressionAlgo.toNat), (41, 0)]

def BlockHeader.fields (h : BlockHeader) : List (Nat × Nat) := h.front ++ (4, h.crc32.toNat) :: h.back

/-- Little-endian integers of the given widths, back to back. -/
def putFields (fs : List (Nat × Nat)) : Bytes := fs.flatMap fun f => leBytes f.1 f.2

def width (fs : List (Nat × Nat)) : Nat := (fs.map Prod.fst).sum

/-- The integer of `w` bytes at `off`; the callers check that the buffer holds it. -/
def fieldAt (data : Bytes) (off w : Nat) : Nat := leNat ((data.drop off).take w)

theorem length_putFields (fs : List (Nat × Nat)) : (putFields fs).length = width fs := by
  unfold putFields width
  rw [List.length_flatMap]
  simp only [length_leBytes]

theorem putFields_append (fs gs : List (Nat × Nat)) : putFields (fs ++ gs) = putFields fs ++ putFields gs :=
  List.flatMap_append

theorem fieldAt_putFields (fs : List (Nat × Nat)) (rest : Bytes) (i w v : Nat) (hi : fs[i]? = some (w, v))
    (hv : v < 256 ^ w) : fieldAt (putFields fs ++ rest) (width (fs.take i)) w = v := by
  obtain ⟨hlt, hget⟩ := List.getElem?_eq_some_iff.mp hi
  have hfs : fs = fs.take i ++ (w, v) :: fs.drop (i + 1) := by
    rw [← hget, ← List.drop_eq_getElem_cons hlt, List.take_append_drop]
  have hpieces : putFields fs ++ rest =
      putFields (fs.take i) ++ (leBytes w v ++ (putFields (fs.drop (i + 1)) ++ rest)) := by
    conv_lhs => rw [hfs, putFields_append]
    simp only [putFields, List.flatMap_cons, List.append_assoc]
  unfold fieldAt
  rw [hpieces, ← length_putFields, List.drop_left, List.take_append_of_le_length (by rw [length_leBytes]),
    List.take_of_length_le (by rw [length_leBytes]), leNat_leBytes_of_lt hv]

def BlockHeader.toBytes (h : BlockHeader) : Bytes := putFields h.fields

/-- The header of a buffer of at least 128 bytes, read in place. -/
def readHeader (data : Bytes) : BlockHeader where
  magic := .ofNat (fieldAt data 0 4)
  headerVersion := .ofNat (fieldAt data 4 2)
  headerSize := .ofNat (fieldAt data 6 2)
  blockType := .ofNat (fieldAt data 8 2)
  processingLevel := .ofNat (fieldAt data 10 1)
  flags := .ofNat (fieldAt data 11 1)
  contentOffset := .ofNat (fieldAt data 12 4)
  contentLength := .ofNat (fieldAt data 16 4)
  metadataOffset := .ofNat (fieldAt data 20 4)
  metadataLength := .ofNat (fieldAt data 24 4)
  chainOffset := .ofNat (fieldAt data 28 4)
  chainLength := .ofNat (fieldAt data 32 4)
  totalSize := .ofNat (fieldAt data 36 4)
  contentHashHigh := .ofNat (fieldAt data 40 8)
  contentHashLow := .ofNat (fieldAt data 48 8)
  embeddingModelId := .ofNat (fieldAt data 56 4)
  vectorDim := .ofNat (fieldAt data 60 2)
  chunkStrategyId := .ofNat (fieldAt data 62 2)
  createdAtUs := .ofNat (fieldAt data 64 8)
  updatedAtUs := .ofNat (fieldAt data 72 8)
  crc32 := .ofNat (fieldAt data 80 4)
  flagsExt := .ofNat (fieldAt data 84 1)
  enrichmentSource := .ofNat (fieldAt data 85 1)
  compressionAlgo := .ofNat (fieldAt data 86 1)

@[simp] theorem length_toBytes (h : BlockHeader) : h.toBytes.length = 128 := by
  unfold BlockHeader.toBytes
  rw [length_putFields]
  simp [width, BlockHeader.fields, BlockHeader.front, BlockHeader.back]

def kFieldWidths : List Nat := [4, 2, 2, 2, 1, 1, 4, 4, 4, 4, 4, 4, 4, 8, 8, 4, 2, 2, 8, 8, 4, 1, 1, 1, 41]

theorem map_fst_fields (h : BlockHeader) : h.fields.map Prod.fst = kFieldWidths := rfl

theorem fieldAt_toBytes (h : BlockHeader) (rest : Bytes) (i off w v : Nat) (hi : h.fields[i]? = some (w, v))
    (hoff : (kFieldWidths.take i).sum = off) (hv : v < 256 ^ w) :
    fieldAt (h.toBytes ++ rest) off w = v := by
  rw [← map_fst_fields h, ← List.map_take] at hoff
  rw [← hoff]
  exact fieldAt_putFields h.fields rest i w v hi hv

theorem readHeader_toBytes (h : BlockHeader) (rest : Bytes) : readHeader (h.toBytes ++ rest) = h := by
  have h8 : ∀ x : UInt8, x.toNat < 256 ^ 1 := fun x => x.toNat_lt
  have h16 : ∀ x : UInt16, x.toNat < 256 ^ 2 := fun x => x.toNat_lt
  have h32 : ∀ x : UInt32, x.toNat < 256 ^ 4 := fun x => x.toNat_lt
  have h64 : ∀ x : UInt64, x.toNat < 256 ^ 8 := fun x => x.toNat_lt
  have hat := fieldAt_toBytes h rest
  unfold readHeader
  rw [hat 0 0 4 _ rfl (by decide) (h32 h.magic), hat 1 4 2 _ rfl (by decide) (h16 h.headerVersion),
    hat 2 6 2 _ rfl (by decide) (h16 h.headerSize), hat 3 8 2 _ rfl (by decide) (h16 h.blockType),
    hat 4 10 1 _ rfl (by decide) (h8 h.processingLevel), hat 5 11 1 _ rfl (by decide) (h8 h.flags),
    hat 6 12 4 _ rfl (by decide) (h32 h.contentOffset), hat 7 16 4 _ rfl (by decide) (h32 h.contentLength),
    hat 8 20 4 _ rfl (by decide) (h32 h.metadataOffset), hat 9 24 4 _ rfl (by decide) (h32 h.metadataLength),
    hat 10 28 4 _ rfl (by decide) (h32 h.chainOffset), hat 11 32 4 _ rfl (by decide) (h32 h.chainLength),
    hat 12 36 4 _ rfl (by decide) (h32 h.totalSize), hat 13 40 8 _ rfl (by decide) (h64 h.contentHashHigh),
    hat 14 48 8 _ rfl (by decide) (h64 h.contentHashLow), hat 15 56 4 _ rfl (by decide) (h32 h.embeddingModelId),
    hat 16 60 2 _ rfl (by decide) (h16 h.vectorDim), hat 17 62 2 _ rfl (by decide) (h16 h.chunkStrategyId),
    hat 18 64 8 _ rfl (by decide) (h64 h.createdAtUs), hat 19 72 8 _ rfl (by decide) (h64 h.updatedAtUs),
    hat 20 80 4 _ rfl (by decide) (h32 h.crc32), hat 21 84 1 _ rfl (by decide) (h8 h.flagsExt),
    hat 22 85 1 _ rfl (by decide) (h8 h.enrichmentSource), hat 23 86 1 _ rfl (by decide) (h8 h.compressionAlgo)]
  simp only [UInt8.ofNat_toNat, UInt16.ofNat_toNat, UInt32.ofNat_toNat, UInt64.ofNat_toNat]

/-! ## The checksum -/

/-- zlib's `crc32`: the checksum carried over one more piece. -/
def crc32Update (crc : UInt32) (data : Bytes) : UInt32 :=
  data.foldl crc32Step (crc ^^^ 0xFFFFFFFF) ^^^ 0xFFFFFFFF

/-- Header bytes 0 to 79 and 84 to 127 and the payload: everything but the checksum itself. -/
def blockComputeCrc32 (data : Bytes) (len : Nat) : UInt32 :=
  let crc : UInt32 := 0
  let crc := if len ≥ 80 then crc32Update crc (data.take 80) else crc
  let crc := if len ≥ kHeaderSize.toNat then crc32Update crc ((data.drop 84).take (kHeaderSize.toNat - 84)) else crc
  if len > kHeaderSize.toNat then
    crc32Update crc ((data.drop kHeaderSize.toNat).take ((len - kHeaderSize.toNat) % 2 ^ 32))
  else crc

/-! ## Building and parsing a block -/

structure Digest where
  bytes : Bytes
  length_bytes : bytes.length = 32

structure BuildArgs where
  blockType : BlockType
  level : ProcessingLevel
  contentText : Bytes
  metadataJson : Bytes
  processingChain : Bytes
  vectorDim : UInt16 := 0
  embeddingModelId : UInt32 := 0
  flagsExt : UInt8 := 0
  enrichmentSource : UInt8 := 0
  compressionAlgo : UInt8 := 0

def BuildArgs.contentLen (a : BuildArgs) : UInt32 := .ofNat a.contentText.length

def BuildArgs.metadataLen (a : BuildArgs) : UInt32 := .ofNat a.metadataJson.length

def BuildArgs.chainLen (a : BuildArgs) : UInt32 := .ofNat a.processingChain.length

def BuildArgs.totalSize (a : BuildArgs) : UInt32 :=
  kHeaderSize.toUInt32 + a.contentLen + a.metadataLen + a.chainLen

def blockHeaderInit : BlockHeader :=
  { magic := kBlockMagic, headerVersion := kHeaderVersion, headerSize := kHeaderSize }

def BuildArgs.flags (a : BuildArgs) : UInt8 :=
  (if 0 < a.contentLen then kFlagHasContent else 0) |||
  (if 0 < a.metadataLen then kFlagHasMetadata else 0) |||
  (if 0 < a.chainLen then kFlagHasChain else 0) |||
  (if 0 < a.vectorDim then kFlagHasVector else 0) |||
  (if 0 < a.contentLen ∧ (a.level = .l2 ∨ a.level = .l3) then kFlagHasFts else 0)

/-- The digest buffer: zeros unless the EVP calls go through. -/
def evpDigest (sha256 : Bytes → Digest) (evpOk : Bool) (content : Bytes) : Bytes :=
  if evpOk then (sha256 content).bytes else List.replicate 32 0

/-- The header before its checksum. The two halves of the content hash are copied as they lie in memory, which
on a little-endian host makes the first byte of the digest the least significant one. -/
def buildHeader (sha256 : Bytes → Digest) (evpOk : Bool) (nowUs : UInt64) (a : BuildArgs) : BlockHeader :=
  let digest := evpDigest sha256 evpOk a.contentText
  { blockHeaderInit with
    blockType := a.blockType.toUInt16
    processingLevel := a.level.toUInt8
    flags := a.flags
    contentLength := a.contentLen
    metadataOffset := if 0 < a.metadataLen then a.contentLen else 0
    metadataLength := a.metadataLen
    chainOffset := if 0 < a.chainLen then a.contentLen + a.metadataLen else 0
    chainLength := a.chainLen
    totalSize := a.totalSize
    vectorDim := a.vectorDim
    embeddingModelId := a.embeddingModelId
    contentHashHigh := if 0 < a.contentLen then .ofNat (leNat (digest.take 8)) else 0
    contentHashLow := if 0 < a.contentLen then .ofNat (leNat ((digest.drop 8).take 8)) else 0
    createdAtUs := nowUs
    updatedAtUs := nowUs
    flagsExt := a.flagsExt
    enrichmentSource := a.enrichmentSource
    compressionAlgo := a.compressionAlgo }

/-- Content, metadata and chain, each up to its 32-bit length. -/
def BuildArgs.payload (a : BuildArgs) : Bytes :=
  a.contentText.take a.contentLen.toNat ++ a.metadataJson.take a.metadataLen.toNat ++
    a.processingChain.take a.chainLen.toNat

/-- `BlockBuild`; `none` when the 32-bit size of the buffer wraps and the copies run past its end. -/
def blockBuild (sha256 : Bytes → Digest) (evpOk : Bool) (nowUs : UInt64) (a : BuildArgs) : Option Bytes :=
  if a.totalSize.toNat < kHeaderSize.toNat + a.contentLen.toNat + a.metadataLen.toNat + a.chainLen.toNat then none
  else
    let hdr := buildHeader sha256 evpOk nowUs a
    let crc := blockComputeCrc32 (hdr.toBytes ++ a.payload) a.totalSize.toNat
    some ({ hdr with crc32 := crc }.toBytes ++ a.payload)

/-- `BlockParse`: the header, when magic, version, size and checksum hold. -/
def blockParse (data : Bytes) : Option BlockHeader :=
  if data.length < kHeaderSize.toNat then none else
  let h := readHeader data
  if h.magic ≠ kBlockMagic then none else
  if h.headerVersion ≠ kHeaderVersion then none else
  if data.length < h.totalSize.toNat then none else
  if blockComputeCrc32 data h.totalSize.toNat ≠ h.crc32 then none else
  some h

/-! ## What is built parses back -/

theorem length_take_toUInt32 (s : Bytes) : (s.take (UInt32.ofNat s.length).toNat).length = (UInt32.ofNat s.length).toNat := by
  rw [List.length_take, UInt32.toNat_ofNat']
  have := Nat.mod_le s.length (2 ^ 32)
  omega

theorem length_payload (a : BuildArgs) :
    a.payload.length = a.contentLen.toNat + a.metadataLen.toNat + a.chainLen.toNat := by
  unfold BuildArgs.payload BuildArgs.contentLen BuildArgs.metadataLen BuildArgs.chainLen
  rw [List.length_append, List.length_append, length_take_toUInt32, length_take_toUInt32, length_take_toUInt32]

theorem blockComputeCrc32_crc (h : BlockHeader) (c : UInt32) (payload : Bytes) (len : Nat) :
    blockComputeCrc32 ({ h with crc32 := c }.toBytes ++ payload) len = blockComputeCrc32 (h.toBytes ++ payload) len := by
  have hfront : ∀ k : BlockHeader, (putFields k.front).length = 80 := by
    intro k
    rw [length_putFields]
    simp [width, BlockHeader.front]
  have hsplit : ∀ k : BlockHeader, k.toBytes ++ payload =
      putFields k.front ++ (leBytes 4 k.crc32.toNat ++ (putFields k.back ++ payload)) := by
    intro k
    unfold BlockHeader.toBytes BlockHeader.fields
    rw [putFields_append]
    simp only [putFields, List.flatMap_cons, List.append_assoc]
  have htake : ∀ k : BlockHeader, (k.toBytes ++ payload).take 80 = putFields k.front := by
    intro k
    rw [hsplit, ← hfront k, List.take_left]
  have hdrop : ∀ k : BlockHeader, (k.toBytes ++ payload).drop 84 = putFields k.back ++ payload := by
    intro k
    have hlen : (putFields k.front ++ leBytes 4 k.crc32.toNat).length = 84 := by
      rw [List.length_append, hfront, length_leBytes]
    rw [hsplit, ← List.append_assoc, ← hlen, List.drop_left]
  have hpay : ∀ k : BlockHeader, (k.toBytes ++ payload).drop kHeaderSize.toNat = payload := by
    intro k
    rw [show kHeaderSize.toNat = k.toBytes.length from (length_toBytes k).symm, List.drop_left]
  unfold blockComputeCrc32
  rw [htake, hdrop, hpay, htake, hdrop, hpay]
  rfl

theorem blockBuild_eq_some {sha256 : Bytes → Digest} {evpOk : Bool} {nowUs : UInt64} {a : BuildArgs} {buf : Bytes}
    (h : blockBuild sha256 evpOk nowUs a = some buf) :
    ∃ crc, buf = { buildHeader sha256 evpOk nowUs a with crc32 := crc }.toBytes ++ a.payload ∧
      buf.length = a.totalSize.toNat ∧ crc = blockComputeCrc32 buf a.totalSize.toNat := by
  unfold blockBuild at h
  split at h
  · exact absurd h (by simp)
  rename_i hfits
  cases h
  refine ⟨_, rfl, ?_, (blockComputeCrc32_crc _ _ _ _).symm⟩
  have hsize : a.totalSize.toNat ≤ kHeaderSize.toNat + a.contentLen.toNat + a.metadataLen.toNat + a.chainLen.toNat := by
    unfold BuildArgs.totalSize
    rw [UInt32.toNat_add, UInt32.toNat_add, UInt32.toNat_add]
    have h128 : kHeaderSize.toUInt32.toNat = kHeaderSize.toNat := by decide
    rw [h128]
    omega
  rw [List.length_append, length_toBytes, length_payload]
  have h128 : kHeaderSize.toNat = 128 := by decide
  omega

theorem blockParse_blockBuild {sha256 : Bytes → Digest} {evpOk : Bool} {nowUs : UInt64} {a : BuildArgs} {buf : Bytes}
    (h : blockBuild sha256 evpOk nowUs a = some buf) :
    ∃ crc, blockParse buf = some { buildHeader sha256 evpOk nowUs a with crc32 := crc } := by
  obtain ⟨crc, hbuf, hlen, hcrc⟩ := blockBuild_eq_some h
  refine ⟨crc, ?_⟩
  have hread : readHeader buf = { buildHeader sha256 evpOk nowUs a with crc32 := crc } := by
    rw [hbuf, readHeader_toBytes]
  have h128 : ¬ buf.length < kHeaderSize.toNat := by
    rw [hbuf, List.length_append, length_toBytes]
    have : kHeaderSize.toNat = 128 := by decide
    omega
  unfold blockParse
  rw [if_neg h128, hread]
  show (if kBlockMagic ≠ kBlockMagic then none else if kHeaderVersion ≠ kHeaderVersion then none
    else if buf.length < a.totalSize.toNat then none
    else if blockComputeCrc32 buf a.totalSize.toNat ≠ crc then none else some _) = some _
  rw [if_neg (by simp), if_neg (by simp), if_neg (by omega), if_neg (by rw [← hcrc]; simp)]

end Cortrix.Store
