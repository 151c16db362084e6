import Cortrix.Store.BlockHeader

/-!
# Content hashes

The deduplication key of a chunk is the string `"sha256:<32 hex digits>"` of the first 16 bytes of its SHA-256.

* `contentHashToString`, `contentHashFromString` : the string of two 64-bit halves and back
  (`contentHashFromString_toString`), so the string determines the halves;
* `contentHashOfContent` packs the digest most significant byte first, `blockBuild` least significant byte first;
  `contentHash_eq_iff` says for which contents the two nevertheless agree.
-/

namespace Cortrix.Query
open Lib Cortrix.Store

/-! ## The string form -/

def kPrefix : List Char := ['s', 'h', 'a', '2', '5', '6', ':']

def hexDigit (v : Nat) : Char := if v < 10 then Char.ofNat ('0'.toNat + v) else Char.ofNat ('a'.toNat + (v - 10))

def hexVal (c : Char) : Option Nat :=
  if '0' ≤ c ∧ c ≤ '9' then some (c.toNat - '0'.toNat)
  else if 'a' ≤ c ∧ c ≤ 'f' then some (c.toNat - 'a'.toNat + 10)
  else if 'A' ≤ c ∧ c ≤ 'F' then some (c.toNat - 'A'.toNat + 10)
  else none

/-- The low `k` hex digits of `v`, most significant first (the loop over `shift = 4 * (k - 1), .., 4, 0`). -/
def be64Hex (v : UInt64) : Nat → List Char
  | 0 => []
  | k + 1 => hexDigit ((v.toNat >>> (4 * k)) &&& 0xF) :: be64Hex v k

def contentHashToString (hi lo : UInt64) : String := String.ofList (kPrefix ++ (be64Hex hi 16 ++ be64Hex lo 16))

/-- One half: `acc = (acc << 4) | digit` over its digits. -/
def parseHex : List Char → UInt64 → Option UInt64
  | [], acc => some acc
  | c :: cs, acc => (hexVal c).bind fun v => parseHex cs ((acc <<< 4) ||| UInt64.ofNat v)

def contentHashFromString (s : String) : Option (UInt64 × UInt64) :=
  let cs := s.toList
  if cs.length ≠ 7 + 32 then none
  else if cs.take 7 ≠ kPrefix then none
  else (parseHex ((cs.drop 7).take 16) 0).bind fun hi =>
    (parseHex (cs.drop 23) 0).bind fun lo => some (hi, lo)

/-- The string `contentHashOfContent` packs from eight digest bytes: `acc = (acc << 8) | byte`. -/
def packBe (bs : Bytes) : UInt64 := bs.foldl (fun acc b => (acc <<< 8) ||| b.toUInt64) 0

def contentHashOfContent (sha256 : Bytes → Digest) (content : Bytes) : String :=
  let digest := (sha256 content).bytes
  contentHashToString (packBe (digest.take 8)) (packBe ((digest.drop 8).take 8))

/-! ## The string determines the halves -/

theorem hexVal_hexDigit : ∀ v < 16, hexVal (hexDigit v) = some v := by decide

theorem length_be64Hex (v : UInt64) (k : Nat) : (be64Hex v k).length = k := by
  induction k with
  | zero => rfl
  | succ k ih => rw [be64Hex, List.length_cons, ih]

theorem toNat_shiftIn (acc v : UInt64) (k : Nat) (hk : k < 64) (hv : v.toNat < 2 ^ k)
    (hacc : acc.toNat * 2 ^ k < 2 ^ 64) :
    ((acc <<< (UInt64.ofNat k)) ||| v).toNat = acc.toNat * 2 ^ k + v.toNat := by
  rw [UInt64.toNat_or, UInt64.toNat_shiftLeft, UInt64.toNat_ofNat',
    Nat.mod_eq_of_lt (show k < 2 ^ 64 by omega), Nat.mod_eq_of_lt hk,
    Nat.shiftLeft_eq, Nat.mod_eq_of_lt hacc, ← Nat.shiftLeft_eq, ← Nat.shiftLeft_add_eq_or_of_lt hv]

theorem parseHex_be64Hex (v : UInt64) (k : Nat) (acc : UInt64) (hacc : acc.toNat * 16 ^ k + 16 ^ k ≤ 2 ^ 64) :
    (parseHex (be64Hex v k) acc).map UInt64.toNat = some (acc.toNat * 16 ^ k + v.toNat % 16 ^ k) := by
  induction k generalizing acc with
  | zero => simp [be64Hex, parseHex, Nat.mod_one]
  | succ k ih =>
    have hd : (v.toNat >>> (4 * k)) &&& 0xF = v.toNat / 16 ^ k % 16 := by
      rw [show (0xF : Nat) = 2 ^ 4 - 1 from rfl, Nat.and_two_pow_sub_one_eq_mod, Nat.shiftRight_eq_div_pow,
        Nat.pow_mul]
    have hlt : v.toNat / 16 ^ k % 16 < 16 := Nat.mod_lt _ (by omega)
    have hpos : 0 < 16 ^ k := Nat.pow_pos (by omega)
    rw [pow_succ'] at hacc
    have hroom : acc.toNat * 2 ^ 4 < 2 ^ 64 := by nlinarith
    have hdigit : (UInt64.ofNat (v.toNat / 16 ^ k % 16)).toNat = v.toNat / 16 ^ k % 16 := by
      rw [UInt64.toNat_ofNat', Nat.mod_eq_of_lt (by omega)]
    have hstep : ((acc <<< 4) ||| UInt64.ofNat (v.toNat / 16 ^ k % 16)).toNat =
        acc.toNat * 2 ^ 4 + v.toNat / 16 ^ k % 16 := by
      have := toNat_shiftIn acc (UInt64.ofNat (v.toNat / 16 ^ k % 16)) 4 (by omega) (by omega) hroom
      rwa [hdigit] at this
    rw [be64Hex, hd, parseHex, hexVal_hexDigit _ hlt, Option.bind_some, ih _ (by rw [hstep]; nlinarith), hstep,
      Nat.mod_pow_succ]
    congr 1
    ring

theorem parseHex_be64Hex_zero (v : UInt64) : parseHex (be64Hex v 16) 0 = some v := by
  have h := parseHex_be64Hex v 16 0 (by decide)
  obtain ⟨w, hw, hv⟩ := Option.map_eq_some_iff.mp h
  have hlt : v.toNat < 16 ^ 16 := v.toNat_lt
  rw [hw, UInt64.toNat_inj.mp (show w.toNat = v.toNat by rw [hv, Nat.mod_eq_of_lt hlt]; simp)]

theorem contentHashFromString_toString (hi lo : UInt64) :
    contentHashFromString (contentHashToString hi lo) = some (hi, lo) := by
  unfold contentHashFromString contentHashToString
  simp only [String.toList_ofList]
  have hlen : (kPrefix ++ (be64Hex hi 16 ++ be64Hex lo 16)).length = 7 + 32 := by
    rw [List.length_append, List.length_append, length_be64Hex, length_be64Hex]
    rfl
  have hdrop7 : (kPrefix ++ (be64Hex hi 16 ++ be64Hex lo 16)).drop 7 = be64Hex hi 16 ++ be64Hex lo 16 := by
    rw [show 7 = kPrefix.length from rfl, List.drop_left]
  have hhi : (be64Hex hi 16 ++ be64Hex lo 16).take 16 = be64Hex hi 16 :=
    List.take_left' (length_be64Hex hi 16)
  have hlo : (kPrefix ++ (be64Hex hi 16 ++ be64Hex lo 16)).drop 23 = be64Hex lo 16 := by
    rw [show 23 = 7 + 16 from rfl, ← List.drop_drop, hdrop7]
    exact List.drop_left' (length_be64Hex hi 16)
  have hpre : (kPrefix ++ (be64Hex hi 16 ++ be64Hex lo 16)).take 7 = kPrefix := List.take_left' rfl
  rw [if_neg (by rw [hlen]; simp), if_neg (by rw [hpre]; simp), hdrop7, hhi, hlo, parseHex_be64Hex_zero,
    Option.bind_some, parseHex_be64Hex_zero, Option.bind_some]

theorem contentHashToString_inj {hi lo hi' lo' : UInt64} :
    contentHashToString hi lo = contentHashToString hi' lo' ↔ hi = hi' ∧ lo = lo' := by
  constructor
  · intro h
    have hparse := contentHashFromString_toString hi lo
    rw [h, contentHashFromString_toString] at hparse
    simpa [eq_comm] using hparse
  · rintro ⟨rfl, rfl⟩
    rfl

/-! ## The two packings -/

theorem toNat_foldl_pack (bs : Bytes) (acc : UInt64) (hacc : acc.toNat * 256 ^ bs.length + 256 ^ bs.length ≤ 2 ^ 64) :
    (bs.foldl (fun (acc : UInt64) b => (acc <<< 8) ||| b.toUInt64) acc).toNat =
      acc.toNat * 256 ^ bs.length + leNat bs.reverse := by
  induction bs generalizing acc with
  | nil => simp [leNat]
  | cons b bs ih =>
    have hpos : 0 < 256 ^ bs.length := Nat.pow_pos (by omega)
    have hb : b.toUInt64.toNat < 2 ^ 8 := b.toNat_lt
    rw [List.length_cons, pow_succ'] at hacc
    have hstep : ((acc <<< 8) ||| b.toUInt64).toNat = acc.toNat * 2 ^ 8 + b.toNat :=
      toNat_shiftIn acc b.toUInt64 8 (by omega) hb (by nlinarith)
    have hb' : b.toNat < 256 := b.toNat_lt
    rw [List.foldl_cons, ih _ (by rw [hstep]; nlinarith), hstep, List.reverse_cons, leNat_append, List.length_reverse,
      List.length_cons, pow_succ']
    simp only [leNat]
    ring

theorem ofNat_leNat_eq_packBe {xs bs : Bytes} (hxs : xs.length = 8) (hbs : bs.length = 8) :
    UInt64.ofNat (leNat xs) = packBe bs ↔ xs = bs.reverse := by
  have hlt : leNat xs < 2 ^ 64 := by
    have := leNat_lt xs
    rw [hxs] at this
    omega
  have hpack : (packBe bs).toNat = leNat bs.reverse := by
    unfold packBe
    rw [toNat_foldl_pack bs 0 (by rw [hbs]; decide)]
    simp
  constructor
  · intro h
    apply leNat_inj (by rw [List.length_reverse, hxs, hbs])
    rw [← hpack, ← h, UInt64.toNat_ofNat_of_lt' hlt]
  · intro h
    apply UInt64.toNat_inj.mp
    rw [UInt64.toNat_ofNat_of_lt' hlt, hpack, h]

/-- When the two hashes of a content agree: where the header's digest was computed, both halves of the digest
read the same in either direction; where the header keeps its zeros, they are zero. -/
def hashesAgree (sha256 : Bytes → Digest) (evpOk : Bool) (content : Bytes) : Prop :=
  let d := (sha256 content).bytes
  if evpOk = true ∧ content.length % 2 ^ 32 ≠ 0 then
    d.take 8 = (d.take 8).reverse ∧ (d.drop 8).take 8 = ((d.drop 8).take 8).reverse
  else d.take 8 = List.replicate 8 0 ∧ (d.drop 8).take 8 = List.replicate 8 0

theorem hashField_eq (sha256 : Bytes → Digest) (evpOk : Bool) (a : BuildArgs) (off : Nat) (hoff : off + 8 ≤ 32) :
    (if 0 < a.contentLen then UInt64.ofNat (leNat (((evpDigest sha256 evpOk a.contentText).drop off).take 8)) else 0) =
      UInt64.ofNat (leNat (if evpOk = true ∧ a.contentText.length % 2 ^ 32 ≠ 0
        then ((sha256 a.contentText).bytes.drop off).take 8 else List.replicate 8 0)) := by
  have hlen : 0 < a.contentLen ↔ a.contentText.length % 2 ^ 32 ≠ 0 := by
    rw [UInt32.lt_iff_toNat_lt, BuildArgs.contentLen, UInt32.toNat_ofNat']
    show 0 < _ ↔ _
    omega
  have hzero : UInt64.ofNat (leNat (List.replicate 8 0)) = 0 := by decide
  by_cases hpos : 0 < a.contentLen
  · rw [if_pos hpos]
    rcases evpOk with _ | _
    · have hz : ((evpDigest sha256 false a.contentText).drop off).take 8 = List.replicate 8 0 := by
        simp only [evpDigest, Bool.false_eq_true, if_false, List.drop_replicate, List.take_replicate]
        congr 1
        omega
      rw [hz, if_neg (by simp)]
    · rw [if_pos ⟨rfl, hlen.mp hpos⟩]
      rfl
  · rw [if_neg hpos, if_neg (by rw [← hlen]; simp [hpos]), hzero]

theorem contentHash_eq_iff (sha256 : Bytes → Digest) (evpOk : Bool) (nowUs : UInt64) (a : BuildArgs) {buf : Bytes}
    (h : blockBuild sha256 evpOk nowUs a = some buf) :
    contentHashToString (readHeader buf).contentHashHigh (readHeader buf).contentHashLow =
        contentHashOfContent sha256 a.contentText ↔
      hashesAgree sha256 evpOk a.contentText := by
  obtain ⟨crc, hbuf, -, -⟩ := blockBuild_eq_some h
  have hd : (sha256 a.contentText).bytes.length = 32 := (sha256 a.contentText).length_bytes
  have hread : readHeader buf = { buildHeader sha256 evpOk nowUs a with crc32 := crc } := by
    rw [hbuf, readHeader_toBytes]
  have hhigh := hashField_eq sha256 evpOk a 0 (by omega)
  have hlow := hashField_eq sha256 evpOk a 8 (by omega)
  rw [List.drop_zero, List.drop_zero] at hhigh
  rw [contentHashOfContent, contentHashToString_inj, hread]
  show (if 0 < a.contentLen then _ else _) = _ ∧ (if 0 < a.contentLen then _ else _) = _ ↔ _
  rw [hhigh, hlow]
  unfold hashesAgree
  have h1 : ((sha256 a.contentText).bytes.take 8).length = 8 := by rw [List.length_take]; omega
  have h2 : (((sha256 a.contentText).bytes.drop 8).take 8).length = 8 := by
    rw [List.length_take, List.length_drop]
    omega
  split
  · rw [ofNat_leNat_eq_packBe h1 h1, ofNat_leNat_eq_packBe h2 h2]
  · rw [ofNat_leNat_eq_packBe (by simp) h1, ofNat_leNat_eq_packBe (by simp) h2]
    have hrev : ∀ bs : Bytes, List.replicate 8 0 = bs.reverse ↔ bs = List.replicate 8 0 := by
      intro bs
      rw [← List.reverse_inj, List.reverse_reverse, List.reverse_replicate, eq_comm]
    rw [hrev, hrev]

/-! ## A content whose two hashes differ -/

/-- The SHA-256 of the one-letter content `"a"`. -/
def digestOfA : Digest where
  bytes := [0xca, 0x97, 0x81, 0x12, 0xca, 0x1b, 0xbd, 0xca, 0xfa, 0xc2, 0x31, 0xb3, 0x9a, 0x23, 0xdc, 0x4d,
    0xa7, 0x86, 0xef, 0xf8, 0x14, 0x7c, 0x4e, 0x72, 0xb9, 0x80, 0x77, 0x85, 0xaf, 0xee, 0x48, 0xbb]
  length_bytes := rfl

def blockOfA : BuildArgs where
  blockType := .file
  level := .l2
  contentText := [0x61]
  metadataJson := []
  processingChain := []

theorem contentHash_eq_iff_of_a :
    ∃ buf, blockBuild (fun _ => digestOfA) true 0 blockOfA = some buf ∧
      (contentHashToString (readHeader buf).contentHashHigh (readHeader buf).contentHashLow =
          contentHashOfContent (fun _ => digestOfA) blockOfA.contentText ↔
        hashesAgree (fun _ => digestOfA) true blockOfA.contentText) := by
  refine ⟨_, if_neg (by decide), ?_⟩
  exact contentHash_eq_iff (fun _ => digestOfA) true 0 blockOfA (if_neg (by decide))

theorem contentHash_of_a_differs :
    ∃ buf, blockBuild (fun _ => digestOfA) true 0 blockOfA = some buf ∧
      contentHashToString (readHeader buf).contentHashHigh (readHeader buf).contentHashLow =
        "sha256:cabd1bca128197ca4ddc239ab331c2fa" ∧
      contentHashOfContent (fun _ => digestOfA) blockOfA.contentText = "sha256:ca978112ca1bbdcafac231b39a23dc4d" ∧
      contentHashToString (readHeader buf).contentHashHigh (readHeader buf).contentHashLow ≠
        contentHashOfContent (fun _ => digestOfA) blockOfA.contentText := by
  refine ⟨_, if_neg (by decide), ?_, by decide, ?_⟩
  · rw [readHeader_toBytes]
    decide
  · rw [readHeader_toBytes]
    decide

end Cortrix.Query
