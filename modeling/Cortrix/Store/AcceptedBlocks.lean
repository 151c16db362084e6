import Cortrix.Store.BlockRanges

/-!
# What an accepted block promises

`BlockParse` checks the magic, the version, `total_size` against the buffer and the checksum. Where the sections lie it
takes from the header, which the checksum covers.

* `SafeToSlice` : what a reader of the sections needs; `section_outside` : an accepted block whose content lies outside;
* `accepted_block` : what holds of every accepted block, and when it is safe to slice.
-/

namespace Cortrix.Store
open Lib

/-! ## What the checksum covers -/

theorem xor_xor_self (c : UInt32) : c ^^^ 0xFFFFFFFF ^^^ 0xFFFFFFFF = c := by
  rw [UInt32.xor_assoc, UInt32.xor_self, UInt32.xor_zero]

theorem crc32Update_append (crc : UInt32) (a b : Bytes) :
    crc32Update (crc32Update crc a) b = crc32Update crc (a ++ b) := by
  unfold crc32Update
  rw [xor_xor_self, List.foldl_append]

theorem crc32Update_zero (data : Bytes) : crc32Update 0 data = crc32 data := by
  unfold crc32Update crc32
  rw [UInt32.zero_xor]

theorem crc32Update_nil (crc : UInt32) : crc32Update crc [] = crc := xor_xor_self crc

/-- The first `len` bytes without the checksum's own four. -/
def checkedBytes (data : Bytes) (len : Nat) : Bytes := data.take 80 ++ (data.take len).drop 84

theorem blockComputeCrc32_eq {data : Bytes} {len : Nat} (hheader : 128 ≤ len) (hlen : len < 2 ^ 32) :
    blockComputeCrc32 data len = crc32 (checkedBytes data len) := by
  have h128 : kHeaderSize.toNat = 128 := by decide
  have hmod : (len - 128) % 2 ^ 32 = len - 128 := Nat.mod_eq_of_lt (by omega)
  -- the bytes behind the checksum field, cut at the end of the header
  have htail : (data.take len).drop 84 = (data.drop 84).take 44 ++ (data.drop 128).take (len - 128) := by
    have hcut : (data.drop 84).drop 44 = data.drop 128 := by rw [List.drop_drop]
    rw [List.drop_take, ← hcut, show len - 84 = 44 + (len - 128) by omega, List.take_add]
  have hempty : ¬ 128 < len → (data.drop 128).take (len - 128) = [] := by
    intro hle
    rw [show len - 128 = 0 by omega, List.take_zero]
  unfold blockComputeCrc32 checkedBytes
  dsimp only
  rw [h128, hmod, if_pos (show len ≥ 80 by omega), if_pos (show len ≥ 128 from hheader), htail, ← List.append_assoc,
    ← crc32Update_zero, ← crc32Update_append, ← crc32Update_append, show 128 - 84 = 44 from rfl]
  split
  · rfl
  · rename_i hle
    rw [hempty hle, crc32Update_nil]

/-! ## Accepted blocks -/

/-- The block lies in the buffer, the checksum that was checked is that of all its bytes but its own, and every section
that is not empty lies in the block. -/
structure SafeToSlice (data : Bytes) (h : BlockHeader) : Prop where
  header : 128 ≤ h.totalSize.toNat
  size : h.totalSize.toNat ≤ data.length
  covered : h.crc32 = crc32 (checkedBytes data h.totalSize.toNat)
  sections : ∀ r ∈ h.ranges, 0 < r.length → r.start + r.length ≤ h.totalSize.toNat

/-- The header places the sections as that of a built block does. -/
structure LaidOutAs (h built : BlockHeader) : Prop where
  totalSize : h.totalSize = built.totalSize
  ranges : h.ranges = built.ranges

theorem SafeToSlice.of_built {a : BuildArgs} {data : Bytes} {h : BlockHeader} (hfits : a.Fits)
    {sha256 : Bytes → Digest} {evpOk : Bool} {nowUs : UInt64} (hlaid : LaidOutAs h (buildHeader sha256 evpOk nowUs a))
    (hsize : h.totalSize.toNat ≤ data.length)
    (hcovered : 128 ≤ h.totalSize.toNat → h.crc32 = crc32 (checkedBytes data h.totalSize.toNat)) : SafeToSlice data h := by
  have htotal : h.totalSize.toNat =
      128 + a.contentText.length + a.metadataJson.length + a.processingChain.length := by
    rw [hlaid.totalSize]
    exact (carries_buildHeader hfits sha256 evpOk nowUs 0).totalSize
  have h128 : 128 ≤ h.totalSize.toNat := by omega
  refine ⟨h128, hsize, hcovered h128, fun r hr _ => ?_⟩
  rw [hlaid.ranges] at hr
  rw [htotal]
  exact (laid_buildHeader hfits sha256 evpOk nowUs 0).within hr

/-! ## One field changed -/

/-- The buffers agree outside the four bytes at `off`. -/
structure SameBut (off : Nat) (data data' : Bytes) : Prop where
  front : data.take off = data'.take off
  back : data.drop (off + 4) = data'.drop (off + 4)

/-- Where the offsets and lengths of content, metadata and chain stand. -/
def sectionFields : List Nat := [12, 16, 20, 24, 28, 32]

variable {data data' : Bytes} {h h' : BlockHeader} {off : Nat}

theorem SameBut.drop (hsame : SameBut off data data') {n : Nat} (hn : off + 4 ≤ n) : data.drop n = data'.drop n := by
  have hcut : ∀ x : Bytes, x.drop n = (x.drop (off + 4)).drop (n - (off + 4)) := by
    intro x
    rw [List.drop_drop]
    congr 1
    omega
  rw [hcut, hsame.back, ← hcut]

theorem checkedBytes_window (data : Bytes) {len : Nat} (hoff : off + 4 ≤ 80) :
    checkedBytes data len = data.take off ++ (data.drop off).take 4 ++
      ((data.drop (off + 4)).take (80 - (off + 4)) ++ (data.drop 84).take (len - 84)) := by
  have h80 : data.take 80 = data.take off ++ ((data.drop off).take 4 ++ (data.drop (off + 4)).take (80 - (off + 4))) := by
    rw [← List.drop_drop, ← List.take_add, ← List.take_add]
    congr 1
    omega
  unfold checkedBytes
  rw [h80, List.drop_take]
  simp only [List.append_assoc]

theorem SameBut.eq (hsame : SameBut off data data') (hoff : off + 4 ≤ 36) (hparse : blockParse data = some h)
    (hparse' : blockParse data' = some h') (h128 : 128 ≤ h.totalSize.toNat) : data' = data := by
  obtain ⟨hlen, hread, -, -, -, hcrc⟩ := blockParse_eq_some.mp hparse
  obtain ⟨hlen', hread', -, -, -, hcrc'⟩ := blockParse_eq_some.mp hparse'
  have hfield : ∀ n w, off + 4 ≤ n → fieldAt data' n w = fieldAt data n w := by
    intro n w hn
    unfold fieldAt
    rw [hsame.drop hn]
  have htotal : h'.totalSize = h.totalSize := by
    rw [← hread, ← hread']
    exact congrArg UInt32.ofNat (hfield 36 4 (by omega))
  have hsum : h'.crc32 = h.crc32 := by
    rw [← hread, ← hread']
    exact congrArg UInt32.ofNat (hfield 80 4 (by omega))
  have hlt := h.totalSize.toNat_lt
  rw [htotal, hsum, ← hcrc, blockComputeCrc32_eq h128 hlt, blockComputeCrc32_eq h128 hlt,
    checkedBytes_window data' (show off + 4 ≤ 80 by omega), checkedBytes_window data (show off + 4 ≤ 80 by omega),
    ← hsame.front, ← hsame.back, ← hsame.drop (show off + 4 ≤ 84 by omega)] at hcrc'
  have hfour : ∀ x : Bytes, 128 ≤ x.length → ((x.drop off).take 4).length = 4 := by
    intro x hx
    rw [List.length_take, List.length_drop]
    omega
  have hwindow := crc32_window (hfour data' hlen') (hfour data hlen) hcrc'
  have hsplit : ∀ x : Bytes, x = x.take off ++ ((x.drop off).take 4 ++ x.drop (off + 4)) := by
    intro x
    rw [← List.drop_drop, List.take_append_drop, List.take_append_drop]
  rw [hsplit data', hwindow, ← hsame.front, ← hsame.back, ← hsplit data]

/-! ## Every accepted block -/

/-- An accepted block lies in the buffer. From 128 bytes on its checksum is that of all its bytes but its own four, so no
other accepted buffer differs from it in one of the section fields alone. Its sections lie within it when the header
places them as that of a built block does. -/
theorem accepted_block (data : Bytes) (h : BlockHeader) (hparse : blockParse data = some h) :
    h.totalSize.toNat ≤ data.length ∧
      (128 ≤ h.totalSize.toNat → h.crc32 = crc32 (checkedBytes data h.totalSize.toNat) ∧
        ∀ off ∈ sectionFields, ∀ data' h', SameBut off data data' → blockParse data' = some h' → data' = data) ∧
      ∀ a sha256 evpOk nowUs, a.Fits → LaidOutAs h (buildHeader sha256 evpOk nowUs a) → SafeToSlice data h := by
  obtain ⟨-, -, -, -, hsize, hcrc⟩ := blockParse_eq_some.mp hparse
  have hcovered : 128 ≤ h.totalSize.toNat → h.crc32 = crc32 (checkedBytes data h.totalSize.toNat) := by
    intro h128
    rw [← blockComputeCrc32_eq h128 h.totalSize.toNat_lt, hcrc]
  refine ⟨hsize, fun h128 => ⟨hcovered h128, fun off hoff data' h' hsame hparse' => ?_⟩, ?_⟩
  · have hle : off + 4 ≤ 36 := by
      simp only [sectionFields, List.mem_cons, List.not_mem_nil, or_false] at hoff
      omega
    exact hsame.eq hle hparse hparse' h128
  · exact fun a sha256 evpOk nowUs hfits hlaid => .of_built hfits hlaid hsize hcovered

/-- A block with a text and a chain. -/
theorem accepted_block_noMetadata :
    ∃ buf hdr, blockBuild (fun _ => noMetadataSha256) true 9 noMetadataArgs = some buf ∧ blockParse buf = some hdr ∧
      hdr.totalSize.toNat ≤ buf.length ∧ SafeToSlice buf hdr ∧ hdr.contentRange = ⟨128, 2⟩ ∧ hdr.chainRange = ⟨130, 1⟩ ∧
      ∀ off ∈ sectionFields, ∀ data' h', SameBut off buf data' → blockParse data' = some h' → data' = buf := by
  have hfits : noMetadataArgs.Fits := show 3 < 2 ^ 32 - 128 by decide
  obtain ⟨buf, hbuild⟩ := hfits.blockBuild (fun _ => noMetadataSha256) true 9
  obtain ⟨crc, hparse⟩ := blockParse_blockBuild hbuild
  obtain ⟨hsize, hchecked, hsafe⟩ := accepted_block buf _ hparse
  have hslice := hsafe noMetadataArgs (fun _ => noMetadataSha256) true 9 hfits ⟨rfl, rfl⟩
  have hlaid := laid_buildHeader hfits (fun _ => noMetadataSha256) true 9 crc
  exact ⟨buf, _, hbuild, hparse, hsize, hslice, hlaid.content, hlaid.chain, (hchecked hslice.header).2⟩

/-! ## A section outside -/

def BlockHeader.sealed (h : BlockHeader) : BlockHeader :=
  { h with crc32 := blockComputeCrc32 h.toBytes h.totalSize.toNat }

theorem sealed_contentRange (h : BlockHeader) : h.sealed.contentRange = h.contentRange := rfl

theorem sealed_totalSize (h : BlockHeader) : h.sealed.totalSize = h.totalSize := rfl

theorem blockParse_sealed (hmagic : h.magic = kBlockMagic) (hversion : h.headerVersion = kHeaderVersion)
    (hsize : h.totalSize.toNat ≤ 128) : blockParse h.sealed.toBytes = some h.sealed := by
  have hread : readHeader h.sealed.toBytes = h.sealed := by simpa using readHeader_toBytes h.sealed []
  have hcrc : blockComputeCrc32 h.sealed.toBytes h.totalSize.toNat = blockComputeCrc32 h.toBytes h.totalSize.toNat := by
    simpa [BlockHeader.sealed] using
      blockComputeCrc32_crc h (blockComputeCrc32 h.toBytes h.totalSize.toNat) [] h.totalSize.toNat
  refine blockParse_eq_some.mpr ⟨?_, hread, hmagic, hversion, ?_, hcrc⟩
  · rw [length_toBytes]
  · rw [length_toBytes]
    exact hsize

/-- A header that claims 64 bytes of content behind a block that ends with it. -/
def longContent : BlockHeader := { blockHeaderInit with totalSize := 128, contentLength := 64 }

/-- The reader accepts it, and its content lies outside. -/
theorem section_outside :
    blockParse longContent.sealed.toBytes = some longContent.sealed ∧
      ¬ ∀ data h, blockParse data = some h → SafeToSlice data h := by
  have hlong := blockParse_sealed (h := longContent) rfl rfl (by decide)
  refine ⟨hlong, fun hall => ?_⟩
  have hsection := (hall _ _ hlong).sections longContent.sealed.contentRange (by simp [BlockHeader.ranges])
  rw [sealed_contentRange, sealed_totalSize] at hsection
  exact absurd hsection (by decide)

end Cortrix.Store
