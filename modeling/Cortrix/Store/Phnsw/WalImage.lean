import Cortrix.Store.Phnsw.WalWriter

/-!
# hnsw.wal as its header counters and its records

* `walImage dim n l es` : the header with counters `n`, `l` and the frames of `es`;
* `Loggable dim e` : a record as the index writes it, which its frame keeps whole;
* `openWal_badHeader`, `readAll_untrusted` : a header whose checksum fails is written again on base zero.
-/

namespace Cortrix.Store.Phnsw
open Lib

namespace WalEntry

/-- A record that fits its frame and is kept whole by it. -/
def Loggable (dim : Nat) (e : WalEntry) : Prop := Fits dim e ∧ stored e = e

theorem deserialize_serialize {dim : Nat} {e : WalEntry} (h : Loggable dim e) :
    deserialize dim (serialize e) = .ok e := by
  have hread := (codec dim).decode_encode [] h.1
  have hfrom : deserializeFrom dim (serialize e) 0 = .ok (e, (serialize e).length) := by
    rw [← toOption_eq_some, deserializeFrom_toOption]
    change _ = some (stored e, (serialize e).length) at hread
    rwa [h.2] at hread
  unfold deserialize
  rw [hfrom]
  simp [bind, Except.bind, pure, Except.pure]

end WalEntry

namespace WalWriter
open WalEntry (serialize stored Loggable)

/-- The header with its counters, then the frames. -/
def walImage (dim : Nat) (n l : UInt64) (es : List WalEntry) : Bytes :=
  makeHeader dim n l ++ (es.map serialize).flatten

variable {dim : Nat} {n l : UInt64} {es : List WalEntry}

theorem headed_walImage (dim : Nat) (n l : UInt64) (es : List WalEntry) : Headed dim (walImage dim n l es) :=
  Headed.makeHeader_append dim n l _

theorem walImage_append (dim : Nat) (n l : UInt64) (es more : List WalEntry) :
    walImage dim n l es ++ (more.map serialize).flatten = walImage dim n l (es ++ more) := by
  rw [walImage, walImage, List.append_assoc, List.map_append, List.flatten_append]

theorem walImage_take : (walImage dim n l es).take kHeaderSize = walImage dim n l [] := by
  rw [walImage, List.take_left' (length_makeHeader dim n l)]
  simp [walImage]

theorem rewriteHeader_walImage {w : WalWriter} (hdr : Bytes) (hlen : hdr.length = kHeaderSize)
    (h : w.image = hdr ++ (es.map serialize).flatten) :
    (rewriteHeaderLocked w none).1 =
      { w with image := walImage w.dim w.entryCount w.committedLsn es, headerTrusted := true } := by
  unfold rewriteHeaderLocked overwrite
  simp only
  rw [h, length_makeHeader, List.drop_left' hlen]
  rfl

theorem header_fields (dim : Nat) (n l : UInt64) (rest : Bytes) :
    ((makeHeader dim n l ++ rest).drop 10).take 8 = leBytes 8 n.toNat ∧
      ((makeHeader dim n l ++ rest).drop 18).take 8 = leBytes 8 l.toNat ∧
      (makeHeader dim n l ++ rest).take 28 =
        fixedHeader dim ++ (leBytes 8 n.toNat ++ leBytes 8 l.toNat ++ [0, 0]) ∧
      ((makeHeader dim n l ++ rest).drop 28).take 4 =
        leBytes 4 (crc32Nat (fixedHeader dim ++ (leBytes 8 n.toNat ++ leBytes 8 l.toNat ++ [0, 0]))) := by
  have hsplit : makeHeader dim n l ++ rest = fixedHeader dim ++ (leBytes 8 n.toNat ++ (leBytes 8 l.toNat ++
      ([0, 0] ++ (leBytes 4 (crc32Nat (fixedHeader dim ++ (leBytes 8 n.toNat ++ leBytes 8 l.toNat ++ [0, 0]))) ++
        rest)))) := by
    simp [makeHeader]
  have h28 : makeHeader dim n l ++ rest = (fixedHeader dim ++ (leBytes 8 n.toNat ++ leBytes 8 l.toNat ++ [0, 0])) ++
      (leBytes 4 (crc32Nat (fixedHeader dim ++ (leBytes 8 n.toNat ++ leBytes 8 l.toNat ++ [0, 0]))) ++ rest) := by
    simp [makeHeader]
  have hlen28 : (fixedHeader dim ++ (leBytes 8 n.toNat ++ leBytes 8 l.toNat ++ [0, 0])).length = 28 := by simp
  refine ⟨?_, ?_, ?_, ?_⟩
  · rw [hsplit, List.drop_left' (length_fixedHeader dim)]
    exact List.take_left' (length_leBytes 8 _)
  · rw [hsplit, ← List.append_assoc, List.drop_left' (by simp)]
    exact List.take_left' (length_leBytes 8 _)
  · rw [h28]
    exact List.take_left' hlen28
  · rw [h28, List.drop_left' hlen28]
    exact List.take_left' (length_leBytes 4 _)

theorem ofNat_leNat_toNat (x : UInt64) : UInt64.ofNat (leNat (leBytes 8 x.toNat)) = x := by
  rw [leNat_leBytes_of_lt (show x.toNat < 256 ^ 8 from x.toNat_lt), UInt64.ofNat_toNat]

theorem openWal_walImage (hdim : 0 < dim) (n l : UInt64) (es : List WalEntry) :
    openWal dim (walImage dim n l es) = .ok
      { image := walImage dim n l es, dim, entryCount := n, committedLsn := l, headerTrusted := true } := by
  obtain ⟨hn, hl, h28, hcrc⟩ := header_fields dim n l (es.map serialize).flatten
  rw [(headed_walImage dim n l es).openWal_crc hdim, walImage, hn, hl, h28, hcrc, leNat_leBytes_of_lt (crc32Nat_lt _),
    if_neg (by simp), ofNat_leNat_toNat, ofNat_leNat_toNat]

theorem scanRecords_frames {hdr : Bytes} (hlen : hdr.length = kHeaderSize) (h : ∀ e ∈ es, Loggable dim e) :
    scanRecords dim (hdr ++ (es.map serialize).flatten) = (es, (hdr ++ (es.map serialize).flatten).length) := by
  have hbare : scanRecords dim hdr = ([], hdr.length) := by
    rw [scanRecords_eq]
    exact scan_eq (hlen ▸ Parsed.nil _) (Codec.decodeAt_end (le_refl _))
  have happ := scanRecords_append (congrArg Prod.snd hbare) fun e he => (h e he).1
  have hstored : es.map stored = es := by
    conv_rhs => rw [← List.map_id es]
    exact List.map_congr_left fun e he => (h e he).2
  rw [happ, hbare, hstored, List.nil_append]

theorem scanRecords_walImage (n l : UInt64) (h : ∀ e ∈ es, Loggable dim e) :
    scanRecords dim (walImage dim n l es) = (es, (walImage dim n l es).length) :=
  scanRecords_frames (length_makeHeader dim n l) h

theorem readAll_walImage {w : WalWriter} (hw : w.image = walImage dim n l es) (hdim : 0 < dim)
    (htrust : w.headerTrusted = true) (h : ∀ e ∈ es, Loggable dim e) : readAll w dim = (es, w) := by
  have hlen : ¬ (walImage dim n l es).length < kHeaderSize := by
    have := (headed_walImage dim n l es).le_length
    omega
  unfold readAll
  rw [hw, if_neg hlen, if_pos hdim, scanRecords_walImage n l h]
  simp [htrust]

/-! ## A header whose checksum fails -/

/-- The fixed fields of the header are in place but its checksum does not match. -/
def BadHeader (dim : Nat) (hdr : Bytes) : Prop :=
  hdr.length = kHeaderSize ∧ hdr.take 10 = fixedHeader dim ∧ leNat (hdr.drop 28) ≠ crc32Nat (hdr.take 28)

instance (dim : Nat) (hdr : Bytes) : Decidable (BadHeader dim hdr) := inferInstanceAs (Decidable (_ ∧ _ ∧ _))

theorem openWal_badHeader {hdr : Bytes} (hdim : 0 < dim) (hbad : BadHeader dim hdr) (rest : Bytes) :
    openWal dim (hdr ++ rest) = .ok
      { image := hdr ++ rest, dim, entryCount := 0, committedLsn := 0, headerTrusted := false } := by
  obtain ⟨hlen, hfix, hcrc⟩ := hbad
  rw [kHeaderSize] at hlen
  have hheaded : Headed dim (hdr ++ rest) := ⟨hdr, rest, rfl, hlen, hfix⟩
  have hdrop : ((hdr ++ rest).drop 28).take 4 = hdr.drop 28 := by
    rw [List.drop_append_of_le_length (by omega)]
    exact List.take_left' (by rw [List.length_drop, hlen])
  rw [hheaded.openWal_crc hdim, hdrop, List.take_append_of_le_length (by omega), if_pos hcrc]

theorem readAll_untrusted {hdr : Bytes} (hlen : hdr.length = kHeaderSize) (hdim : 0 < dim)
    (h : ∀ e ∈ es, Loggable dim e) :
    readAll { image := hdr ++ (es.map serialize).flatten, dim, entryCount := 0, committedLsn := 0,
              headerTrusted := false } dim =
      (es, { image := walImage dim (UInt64.ofNat es.length) (UInt64.ofNat es.length) es, dim,
             entryCount := UInt64.ofNat es.length, committedLsn := UInt64.ofNat es.length,
             headerTrusted := true }) := by
  have hle : ¬ (hdr ++ (es.map serialize).flatten).length < kHeaderSize := by
    rw [List.length_append]
    omega
  unfold readAll
  rw [if_neg hle, if_pos hdim, scanRecords_frames hlen h]
  simp only [or_true, if_true, lt_irrefl, if_false]
  rw [rewriteHeader_walImage hdr hlen rfl]
  simp

end WalWriter

end Cortrix.Store.Phnsw
