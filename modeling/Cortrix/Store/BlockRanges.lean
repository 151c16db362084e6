import Cortrix.Store.BlockHeader

/-!
# What a block header says about its block

* `fieldAt_append`, `blockComputeCrc32_append`, `blockParse_append` : the reader does not look behind the block, so what
  it accepts it accepts with any bytes behind it;
* `block_roundTrip` : a built block parses, carries the fields it was built from, and its three ranges are apart, lie
  within the block and hold the three strings.
-/

namespace Cortrix.Store
open Lib

/-! ## Bytes behind a block -/

variable {data : Bytes} (extra : Bytes) {h : BlockHeader}

theorem drop_take_append {off w : Nat} (h : off + w ≤ data.length) :
    ((data ++ extra).drop off).take w = (data.drop off).take w := by
  have hoff : off ≤ data.length := by omega
  have hw : w ≤ (data.drop off).length := by rw [List.length_drop]; omega
  rw [List.drop_append_of_le_length hoff, List.take_append_of_le_length hw]

theorem fieldAt_append {off w : Nat} (h : off + w ≤ data.length) :
    fieldAt (data ++ extra) off w = fieldAt data off w := by
  unfold fieldAt
  rw [drop_take_append extra h]

theorem readHeader_append (h : 128 ≤ data.length) : readHeader (data ++ extra) = readHeader data := by
  have hat : ∀ off w, off + w ≤ 128 → fieldAt (data ++ extra) off w = fieldAt data off w :=
    fun off w hle => fieldAt_append extra (hle.trans h)
  unfold readHeader
  rw [hat 0 4 (by decide), hat 4 2 (by decide), hat 6 2 (by decide), hat 8 2 (by decide), hat 10 1 (by decide),
    hat 11 1 (by decide), hat 12 4 (by decide), hat 16 4 (by decide), hat 20 4 (by decide), hat 24 4 (by decide),
    hat 28 4 (by decide), hat 32 4 (by decide), hat 36 4 (by decide), hat 40 8 (by decide), hat 48 8 (by decide),
    hat 56 4 (by decide), hat 60 2 (by decide), hat 62 2 (by decide), hat 64 8 (by decide), hat 72 8 (by decide),
    hat 80 4 (by decide), hat 84 1 (by decide), hat 85 1 (by decide), hat 86 1 (by decide)]

theorem blockComputeCrc32_append {len : Nat} (h : len ≤ data.length) :
    blockComputeCrc32 (data ++ extra) len = blockComputeCrc32 data len := by
  have h128 : kHeaderSize.toNat = 128 := by decide
  have hfront : 80 ≤ len → (data ++ extra).take 80 = data.take 80 :=
    fun h80 => List.take_append_of_le_length (h80.trans h)
  have hback : 128 ≤ len → ((data ++ extra).drop 84).take 44 = (data.drop 84).take 44 :=
    fun hl => drop_take_append extra (by omega)
  have hpay : 128 < len →
      ((data ++ extra).drop 128).take ((len - 128) % 2 ^ 32) = (data.drop 128).take ((len - 128) % 2 ^ 32) := by
    intro hl
    have hmod := Nat.mod_le (len - 128) (2 ^ 32)
    exact drop_take_append extra (by omega)
  unfold blockComputeCrc32
  rw [h128]
  by_cases h80 : 80 ≤ len
  · rw [hfront h80]
    by_cases hl : 128 ≤ len
    · rw [show 128 - 84 = 44 from rfl, hback hl]
      by_cases hp : 128 < len
      · rw [hpay hp]
      · simp only [gt_iff_lt, if_neg hp]
    · simp only [ge_iff_le, gt_iff_lt, if_neg hl, if_neg (show ¬ 128 < len by omega)]
  · simp only [ge_iff_le, gt_iff_lt, if_neg h80, if_neg (show ¬ 128 ≤ len by omega),
      if_neg (show ¬ 128 < len by omega)]

theorem blockParse_eq_some :
    blockParse data = some h ↔ 128 ≤ data.length ∧ readHeader data = h ∧ h.magic = kBlockMagic ∧
      h.headerVersion = kHeaderVersion ∧ h.totalSize.toNat ≤ data.length ∧
      blockComputeCrc32 data h.totalSize.toNat = h.crc32 := by
  have h128 : kHeaderSize.toNat = 128 := by decide
  unfold blockParse
  rw [h128]
  constructor
  · intro hp
    split at hp
    · cases hp
    rename_i hlen
    dsimp only at hp
    split at hp
    · cases hp
    rename_i hmagic
    split at hp
    · cases hp
    rename_i hversion
    split at hp
    · cases hp
    rename_i hsize
    split at hp
    · cases hp
    rename_i hcrc
    cases hp
    exact ⟨by omega, rfl, not_not.mp hmagic, not_not.mp hversion, by omega, not_not.mp hcrc⟩
  · rintro ⟨hlen, rfl, hmagic, hversion, hsize, hcrc⟩
    rw [if_neg (by omega), if_neg (not_not.mpr hmagic), if_neg (not_not.mpr hversion), if_neg (by omega),
      if_neg (not_not.mpr hcrc)]

theorem blockParse_append (hp : blockParse data = some h) (extra : Bytes) : blockParse (data ++ extra) = some h := by
  obtain ⟨hlen, hread, hmagic, hversion, hsize, hcrc⟩ := blockParse_eq_some.mp hp
  refine blockParse_eq_some.mpr ⟨?_, ?_, hmagic, hversion, ?_, ?_⟩
  · rw [List.length_append]
    omega
  · rw [readHeader_append extra hlen, hread]
  · rw [List.length_append]
    omega
  · rw [blockComputeCrc32_append extra hsize, hcrc]

/-! ## The ranges of the payload -/

/-- A piece of a block, counted from the first byte of its header. -/
structure Range where
  start : Nat
  length : Nat

def Range.Covers (r : Range) (i : Nat) : Prop := r.start ≤ i ∧ i < r.start + r.length

def Range.Apart (r s : Range) : Prop := ∀ i, ¬ (r.Covers i ∧ s.Covers i)

def Range.slice (r : Range) (data : Bytes) : Bytes := (data.drop r.start).take r.length

/-- An offset of the header counts from the end of the header. -/
def payloadRange (offset length : UInt32) : Range := ⟨kHeaderSize.toNat + offset.toNat, length.toNat⟩

def BlockHeader.contentRange (h : BlockHeader) : Range := payloadRange h.contentOffset h.contentLength

def BlockHeader.metadataRange (h : BlockHeader) : Range := payloadRange h.metadataOffset h.metadataLength

def BlockHeader.chainRange (h : BlockHeader) : Range := payloadRange h.chainOffset h.chainLength

def BlockHeader.ranges (h : BlockHeader) : List Range := [h.contentRange, h.metadataRange, h.chainRange]

/-- The header says what the block was built from, and flags the sections that are there. -/
structure Carries (a : BuildArgs) (h : BlockHeader) : Prop where
  blockType : h.blockType = a.blockType.toUInt16
  processingLevel : h.processingLevel = a.level.toUInt8
  vectorDim : h.vectorDim = a.vectorDim
  embeddingModelId : h.embeddingModelId = a.embeddingModelId
  flagsExt : h.flagsExt = a.flagsExt
  enrichmentSource : h.enrichmentSource = a.enrichmentSource
  compressionAlgo : h.compressionAlgo = a.compressionAlgo
  hasContent : h.flags &&& kFlagHasContent ≠ 0 ↔ a.contentText ≠ []
  hasMetadata : h.flags &&& kFlagHasMetadata ≠ 0 ↔ a.metadataJson ≠ []
  hasChain : h.flags &&& kFlagHasChain ≠ 0 ↔ a.processingChain ≠ []
  totalSize : h.totalSize.toNat = 128 + a.contentText.length + a.metadataJson.length + a.processingChain.length

/-- The ranges do not overlap, lie within the block, and hold the three strings. -/
structure Placed (a : BuildArgs) (h : BlockHeader) (data : Bytes) : Prop where
  content : h.contentRange.slice data = a.contentText
  metadata : h.metadataRange.slice data = a.metadataJson
  chain : h.chainRange.slice data = a.processingChain
  apart : h.ranges.Pairwise Range.Apart
  within : ∀ r ∈ h.ranges, r.start + r.length ≤ h.totalSize.toNat

/-- The block's size fits its 32-bit field. -/
def BuildArgs.Fits (a : BuildArgs) : Prop :=
  a.contentText.length + a.metadataJson.length + a.processingChain.length < 2 ^ 32 - 128

namespace BuildArgs

variable {a : BuildArgs}

theorem Fits.contentLen (h : a.Fits) : a.contentLen.toNat = a.contentText.length := by
  unfold Fits at h
  exact UInt32.toNat_ofNat_of_lt' (by show _ < 2 ^ 32; omega)

theorem Fits.metadataLen (h : a.Fits) : a.metadataLen.toNat = a.metadataJson.length := by
  unfold Fits at h
  exact UInt32.toNat_ofNat_of_lt' (by show _ < 2 ^ 32; omega)

theorem Fits.chainLen (h : a.Fits) : a.chainLen.toNat = a.processingChain.length := by
  unfold Fits at h
  exact UInt32.toNat_ofNat_of_lt' (by show _ < 2 ^ 32; omega)

theorem Fits.totalSize (h : a.Fits) :
    a.totalSize.toNat = 128 + a.contentText.length + a.metadataJson.length + a.processingChain.length := by
  have h128 : kHeaderSize.toUInt32.toNat = 128 := by decide
  unfold BuildArgs.totalSize
  rw [UInt32.toNat_add, UInt32.toNat_add, UInt32.toNat_add, h128, h.contentLen, h.metadataLen, h.chainLen]
  unfold Fits at h
  omega

theorem Fits.payload (h : a.Fits) : a.payload = a.contentText ++ a.metadataJson ++ a.processingChain := by
  unfold BuildArgs.payload
  rw [h.contentLen, h.metadataLen, h.chainLen, List.take_length, List.take_length, List.take_length]

theorem Fits.blockBuild (h : a.Fits) (sha256 : Bytes → Digest) (evpOk : Bool) (nowUs : UInt64) :
    ∃ buf, blockBuild sha256 evpOk nowUs a = some buf := by
  have h128 : kHeaderSize.toNat = 128 := by decide
  unfold Store.blockBuild
  rw [if_neg (by rw [h.totalSize, h.contentLen, h.metadataLen, h.chainLen, h128]; omega)]
  exact ⟨_, rfl⟩

end BuildArgs

/-! ## The round trip -/

theorem flags_sections (c m k v f : Prop) [Decidable c] [Decidable m] [Decidable k] [Decidable v] [Decidable f] :
    let flags := (if c then kFlagHasContent else 0) ||| (if m then kFlagHasMetadata else 0) |||
      (if k then kFlagHasChain else 0) ||| (if v then kFlagHasVector else 0) ||| (if f then kFlagHasFts else 0)
    (flags &&& kFlagHasContent ≠ 0 ↔ c) ∧ (flags &&& kFlagHasMetadata ≠ 0 ↔ m) ∧
      (flags &&& kFlagHasChain ≠ 0 ↔ k) := by
  by_cases hc : c <;> by_cases hm : m <;> by_cases hk : k <;> by_cases hv : v <;> by_cases hf : f <;>
    simp only [hc, hm, hk, hv, hf, if_true, if_false] <;> decide

theorem pos_iff {n : UInt32} {k : Nat} (h : n.toNat = k) : 0 < n ↔ 0 < k := by
  rw [UInt32.lt_iff_toNat_lt, h]
  rfl

theorem carries_buildHeader {a : BuildArgs} (h : a.Fits) (sha256 : Bytes → Digest) (evpOk : Bool) (nowUs : UInt64)
    (crc : UInt32) : Carries a { buildHeader sha256 evpOk nowUs a with crc32 := crc } := by
  obtain ⟨hc, hm, hk⟩ := flags_sections (0 < a.contentLen) (0 < a.metadataLen) (0 < a.chainLen) (0 < a.vectorDim)
    (0 < a.contentLen ∧ (a.level = .l2 ∨ a.level = .l3))
  exact { blockType := rfl, processingLevel := rfl, vectorDim := rfl, embeddingModelId := rfl, flagsExt := rfl,
          enrichmentSource := rfl, compressionAlgo := rfl
          hasContent := hc.trans ((pos_iff h.contentLen).trans List.length_pos_iff)
          hasMetadata := hm.trans ((pos_iff h.metadataLen).trans List.length_pos_iff)
          hasChain := hk.trans ((pos_iff h.chainLen).trans List.length_pos_iff)
          totalSize := h.totalSize }

/-- The sections one behind the other from byte 128 on; an empty section behind the content is placed at its start. -/
structure Laid (h : BlockHeader) (n m k : Nat) : Prop where
  content : h.contentRange = ⟨128, n⟩
  metadata : h.metadataRange = ⟨128 + if 0 < m then n else 0, m⟩
  chain : h.chainRange = ⟨128 + if 0 < k then n + m else 0, k⟩

theorem laid_buildHeader {a : BuildArgs} (h : a.Fits) (sha256 : Bytes → Digest) (evpOk : Bool) (nowUs : UInt64)
    (crc : UInt32) :
    Laid { buildHeader sha256 evpOk nowUs a with crc32 := crc } a.contentText.length a.metadataJson.length
      a.processingChain.length := by
  refine ⟨?_, ?_, ?_⟩
  · show payloadRange 0 a.contentLen = _
    unfold payloadRange
    rw [h.contentLen]
    rfl
  · show payloadRange (if 0 < a.metadataLen then a.contentLen else 0) a.metadataLen = _
    unfold payloadRange
    rw [apply_ite UInt32.toNat, h.contentLen, h.metadataLen]
    simp only [pos_iff h.metadataLen]
    rfl
  · have hsum : (a.contentLen + a.metadataLen).toNat = a.contentText.length + a.metadataJson.length := by
      rw [UInt32.toNat_add, h.contentLen, h.metadataLen]
      unfold BuildArgs.Fits at h
      omega
    show payloadRange (if 0 < a.chainLen then a.contentLen + a.metadataLen else 0) a.chainLen = _
    unfold payloadRange
    rw [apply_ite UInt32.toNat, hsum, h.chainLen]
    simp only [pos_iff h.chainLen]
    rfl

theorem Laid.apart {n m k : Nat} (hl : Laid h n m k) : h.ranges.Pairwise Range.Apart := by
  have hcm : Range.Apart h.contentRange h.metadataRange := by
    rw [hl.content, hl.metadata]
    rintro i ⟨⟨hi, hi'⟩, hj, hj'⟩
    dsimp only at hi hi' hj hj'
    split_ifs at hj hj' <;> omega
  have hck : Range.Apart h.contentRange h.chainRange := by
    rw [hl.content, hl.chain]
    rintro i ⟨⟨hi, hi'⟩, hj, hj'⟩
    dsimp only at hi hi' hj hj'
    split_ifs at hj hj' <;> omega
  have hmk : Range.Apart h.metadataRange h.chainRange := by
    rw [hl.metadata, hl.chain]
    rintro i ⟨⟨hi, hi'⟩, hj, hj'⟩
    dsimp only at hi hi' hj hj'
    split_ifs at hi hi' hj hj' <;> omega
  exact .cons (by simp [hcm, hck]) (.cons (by simp [hmk]) (.cons (by simp) .nil))

theorem Laid.within {n m k : Nat} (hl : Laid h n m k) {r : Range} (hr : r ∈ h.ranges) :
    r.start + r.length ≤ 128 + n + m + k := by
  simp only [BlockHeader.ranges, List.mem_cons, List.not_mem_nil, or_false] at hr
  rcases hr with rfl | rfl | rfl
  · rw [hl.content]
    dsimp only
    omega
  · rw [hl.metadata]
    dsimp only
    split <;> omega
  · rw [hl.chain]
    dsimp only
    split <;> omega

theorem slice_eq {pre s post : Bytes} {r : Range} (hlen : r.length = s.length)
    (hstart : 0 < s.length → r.start = pre.length) : r.slice (pre ++ s ++ post) = s := by
  unfold Range.slice
  rw [hlen]
  rcases Nat.eq_zero_or_pos s.length with hs | hs
  · rw [hs, List.take_zero, List.length_eq_zero_iff.mp hs]
  · rw [hstart hs, List.append_assoc, List.drop_left, List.take_left]

theorem Laid.placed {a : BuildArgs} (hl : Laid h a.contentText.length a.metadataJson.length a.processingChain.length)
    (hsize : h.totalSize.toNat = 128 + a.contentText.length + a.metadataJson.length + a.processingChain.length)
    (extra : Bytes) : Placed a h (h.toBytes ++ (a.contentText ++ a.metadataJson ++ a.processingChain) ++ extra) := by
  refine ⟨?_, ?_, ?_, hl.apart, fun r hr => hsize ▸ hl.within hr⟩
  · have hdata : h.toBytes ++ (a.contentText ++ a.metadataJson ++ a.processingChain) ++ extra =
        h.toBytes ++ a.contentText ++ (a.metadataJson ++ a.processingChain ++ extra) := by
      simp only [List.append_assoc]
    rw [hdata, hl.content]
    exact slice_eq rfl fun _ => (length_toBytes h).symm
  · have hdata : h.toBytes ++ (a.contentText ++ a.metadataJson ++ a.processingChain) ++ extra =
        (h.toBytes ++ a.contentText) ++ a.metadataJson ++ (a.processingChain ++ extra) := by
      simp only [List.append_assoc]
    rw [hdata, hl.metadata]
    refine slice_eq rfl fun hpos => ?_
    rw [if_pos hpos, List.length_append, length_toBytes]
  · have hdata : h.toBytes ++ (a.contentText ++ a.metadataJson ++ a.processingChain) ++ extra =
        (h.toBytes ++ a.contentText ++ a.metadataJson) ++ a.processingChain ++ extra := by
      simp only [List.append_assoc]
    rw [hdata, hl.chain]
    refine slice_eq rfl fun hpos => ?_
    rw [if_pos hpos, List.length_append, List.length_append, length_toBytes, Nat.add_assoc]

/-- A built block is accepted, alone or with any bytes behind it; its header carries what the block was built from and
places the three strings. -/
theorem block_roundTrip {a : BuildArgs} (h : a.Fits) (sha256 : Bytes → Digest) (evpOk : Bool) (nowUs : UInt64) :
    ∃ buf hdr, blockBuild sha256 evpOk nowUs a = some buf ∧ Carries a hdr ∧
      ∀ extra, blockParse (buf ++ extra) = some hdr ∧ Placed a hdr (buf ++ extra) := by
  obtain ⟨buf, hbuild⟩ := h.blockBuild sha256 evpOk nowUs
  obtain ⟨crc, hbuf, -, -⟩ := blockBuild_eq_some hbuild
  obtain ⟨crc', hparse⟩ := blockParse_blockBuild hbuild
  have hread := (blockParse_eq_some.mp hparse).2.1
  rw [hbuf, readHeader_toBytes] at hread
  rw [← hread] at hparse
  have hcarries := carries_buildHeader h sha256 evpOk nowUs crc
  refine ⟨buf, _, hbuild, hcarries, fun extra => ⟨blockParse_append hparse extra, ?_⟩⟩
  rw [hbuf, h.payload]
  exact (laid_buildHeader h sha256 evpOk nowUs crc).placed hcarries.totalSize extra

def noMetadataArgs : BuildArgs :=
  { blockType := .memory, level := .l2, contentText := [104, 105], metadataJson := [], processingChain := [7] }

def noMetadataSha256 : Digest where
  bytes := [143, 67, 67, 70, 100, 143, 107, 150, 223, 137, 221, 169, 1, 197, 23, 107, 16, 166, 216, 57, 97, 221, 60, 26,
    200, 139, 89, 178, 220, 50, 122, 164]
  length_bytes := rfl

/-- Its chain starts right behind the text. -/
theorem block_roundTrip_noMetadata :
    ∃ buf hdr, blockBuild (fun _ => noMetadataSha256) true 9 noMetadataArgs = some buf ∧ Carries noMetadataArgs hdr ∧
      ∀ extra, blockParse (buf ++ extra) = some hdr ∧ Placed noMetadataArgs hdr (buf ++ extra) :=
  block_roundTrip (a := noMetadataArgs) (show 3 < 2 ^ 32 - 128 by decide) (fun _ => noMetadataSha256) true 9

end Cortrix.Store
