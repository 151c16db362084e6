import Cortrix.Common.Status
import Cortrix.Lib.Bytes
import Cortrix.Lib.OrderedMap
import Mathlib.Order.Fin.Basic

/-!
# The codec of sparse vectors

`sparse_vec` on disk: the number of terms, then the id and the weight of each. Weights are 32-bit patterns.

* `codec_exact` : the encoding is decoded to the vector; what is accepted has the declared length and is encoded again
  to itself; what does not fit is rejected.
-/

namespace Cortrix.Retrieval.SparseCodec
open Lib

/-- `std::map<uint32_t, float>`. -/
@[ext] structure SparseVector where
  terms : OrderedMap (Fin (2 ^ 32)) UInt32 := .empty

/-- `SparseStatus` of `kSparseSerializeFailed`. -/
def serializeFailed (detail : String) : Status := ⟨.unavailable, "CX_ERR_F40_SPARSE_SERIALIZE_FAILED: " ++ detail⟩

/-- `sizeof(uint16_t) + sizeof(float)`. -/
def kEntrySize : Nat := 6

def appendLE16 (out : Bytes) (value : UInt16) : Bytes := out ++ leBytes 2 value.toNat

def appendLE32 (out : Bytes) (value : UInt32) : Bytes := out ++ leBytes 4 value.toNat

def readLE16 (data : Bytes) (off : Nat) : Option UInt16 := (readAt data off 2).map fun bs => UInt16.ofNat (leNat bs)

def readLE32 (data : Bytes) (off : Nat) : Option UInt32 := (readAt data off 4).map fun bs => UInt32.ofNat (leNat bs)

def serializeSparseVec (vec : SparseVector) : Bytes × Bool :=
  if 0xFFFF < vec.terms.entries.length then ([], false)
  else if vec.terms.entries.any fun e => 0xFFFF < e.1.val then ([], false)
  else
    let out := appendLE16 [] (UInt16.ofNat vec.terms.entries.length)
    (vec.terms.entries.foldl (fun out e => appendLE32 (appendLE16 out (UInt16.ofNat e.1)) e.2) out, true)

def widen (termId : UInt16) : Fin (2 ^ 32) := termId.toFin.castLE (by decide)

/-- The loop of the decoder over the terms that are left; `none` is a read outside the buffer. -/
def readTerms (data : Bytes) : Nat → Nat → SparseVector → Option SparseVector
  | 0, _, vec => some vec
  | left + 1, off, vec => do
    let termId ← readLE16 data off
    let weight ← readLE32 data (off + 2)
    readTerms data left (off + 2 + 4) ⟨vec.terms.set (widen termId) weight⟩

/-- `DeserializeSparseVec`; the data is `none` for a null pointer. -/
def deserializeSparseVec (data : Option Bytes) : Option (Except Status SparseVector) :=
  match data with
  | none => some (.ok {})
  | some data =>
    if data.length = 0 then some (.ok {})
    else if data.length < 2 then some (.error (serializeFailed "blob too short for num_terms header"))
    else do
      let numTerms ← readLE16 data 0
      let expected := 2 + numTerms.toNat * kEntrySize
      let need := s!"declared {numTerms} terms need {expected} bytes, have {data.length}"
      if data.length < expected then some (.error (serializeFailed ("blob truncated: " ++ need)))
      else if expected < data.length then some (.error (serializeFailed ("blob oversize: " ++ need)))
      else (readTerms data numTerms.toNat 2 {}).map .ok

/-! ## Blobs -/

def entryBytes (e : UInt16 × UInt32) : Bytes := leBytes 2 e.1.toNat ++ leBytes 4 e.2.toNat

def frame (es : List (UInt16 × UInt32)) : Bytes := leBytes 2 es.length ++ es.flatMap entryBytes

theorem length_entryBytes (e : UInt16 × UInt32) : (entryBytes e).length = kEntrySize := by
  rw [entryBytes, List.length_append, length_leBytes, length_leBytes, kEntrySize]

theorem length_flatMap_entryBytes (es : List (UInt16 × UInt32)) :
    (es.flatMap entryBytes).length = es.length * kEntrySize := by
  induction es with
  | nil => exact (Nat.zero_mul _).symm
  | cons e es ih => rw [List.flatMap_cons, List.length_append, length_entryBytes, ih, List.length_cons]; ring

theorem length_frame (es : List (UInt16 × UInt32)) : (frame es).length = 2 + es.length * kEntrySize := by
  rw [frame, List.length_append, length_leBytes, length_flatMap_entryBytes]

theorem toNat_ofNat16 {n : Nat} (h : n ≤ 0xFFFF) : (UInt16.ofNat n).toNat = n :=
  UInt16.toNat_ofNat_of_lt' (Nat.lt_succ_of_le h)

theorem leBytes_toNat_ofNat {bs : Bytes} (h : bs.length = 2) : leBytes 2 (UInt16.ofNat (leNat bs)).toNat = bs := by
  have hlt : leNat bs < 2 ^ 16 := by simpa [h] using leNat_lt bs
  rw [UInt16.toNat_ofNat_of_lt' hlt, ← h, leBytes_leNat]

theorem entries_of_length {n : Nat} {bs : Bytes} (h : bs.length = n * kEntrySize) :
    ∃ es : List (UInt16 × UInt32), es.length = n ∧ bs = es.flatMap entryBytes := by
  induction n generalizing bs with
  | zero => exact ⟨[], rfl, List.eq_nil_of_length_eq_zero (by rw [h, Nat.zero_mul])⟩
  | succ n ih =>
    have hsix : kEntrySize = 6 := rfl
    rw [hsix] at h ih
    obtain ⟨es, hes, hrest⟩ := ih (show (bs.drop 6).length = n * 6 by rw [List.length_drop]; omega)
    have hid : (bs.take 2).length = 2 := by rw [List.length_take]; omega
    have hweight : ((bs.drop 2).take 4).length = 4 := by rw [List.length_take, List.length_drop]; omega
    have hlt : leNat ((bs.drop 2).take 4) < 2 ^ 32 := by simpa [hweight] using leNat_lt ((bs.drop 2).take 4)
    have hfour : leBytes 4 (UInt32.ofNat (leNat ((bs.drop 2).take 4))).toNat = (bs.drop 2).take 4 := by
      rw [UInt32.toNat_ofNat_of_lt' hlt]
      have hspell := leBytes_leNat ((bs.drop 2).take 4)
      rwa [hweight] at hspell
    refine ⟨(UInt16.ofNat (leNat (bs.take 2)), UInt32.ofNat (leNat ((bs.drop 2).take 4))) :: es, by simp [hes], ?_⟩
    rw [List.flatMap_cons, ← hrest, entryBytes, leBytes_toNat_ofNat hid, hfour, List.append_assoc]
    rw [show bs.drop 6 = (bs.drop 2).drop 4 by rw [List.drop_drop], List.take_append_drop, List.take_append_drop]

/-! ## Reading a blob -/

theorem readAt_piece_at {pre piece post : Bytes} {off len : Nat} (hoff : pre.length = off) (hlen : piece.length = len) :
    readAt (pre ++ (piece ++ post)) off len = some piece := by
  subst hoff hlen
  exact readAt_piece pre piece post

theorem readLE16_at {pre post : Bytes} {off : Nat} (value : UInt16) (hoff : pre.length = off) :
    readLE16 (pre ++ (leBytes 2 value.toNat ++ post)) off = some value := by
  rw [readLE16, readAt_piece_at hoff (length_leBytes _ _), Option.map_some,
    leNat_leBytes_of_lt (k := 2) value.toNat_lt, UInt16.ofNat_toNat]

theorem readLE32_at {pre post : Bytes} {off : Nat} (value : UInt32) (hoff : pre.length = off) :
    readLE32 (pre ++ (leBytes 4 value.toNat ++ post)) off = some value := by
  rw [readLE32, readAt_piece_at hoff (length_leBytes _ _), Option.map_some,
    leNat_leBytes_of_lt (k := 4) value.toNat_lt, UInt32.ofNat_toNat]

def setAll (es : List (UInt16 × UInt32)) (vec : SparseVector) : SparseVector :=
  es.foldl (fun vec e => ⟨vec.terms.set (widen e.1) e.2⟩) vec

theorem readTerms_frame (es : List (UInt16 × UInt32)) (pre : Bytes) (vec : SparseVector) :
    readTerms (pre ++ es.flatMap entryBytes) es.length pre.length vec = some (setAll es vec) := by
  induction es generalizing pre vec with
  | nil => rfl
  | cons e es ih =>
    have hid : readLE16 (pre ++ (e :: es).flatMap entryBytes) pre.length = some e.1 := by
      rw [List.flatMap_cons, entryBytes, List.append_assoc]
      exact readLE16_at e.1 rfl
    have hweight : readLE32 (pre ++ (e :: es).flatMap entryBytes) (pre.length + 2) = some e.2 := by
      rw [List.flatMap_cons, entryBytes, List.append_assoc, ← List.append_assoc]
      exact readLE32_at e.2 (by rw [List.length_append, length_leBytes])
    have hrest := ih (pre ++ entryBytes e) ⟨vec.terms.set (widen e.1) e.2⟩
    rw [List.append_assoc, ← List.flatMap_cons, List.length_append, length_entryBytes] at hrest
    rw [List.length_cons, readTerms, hid, hweight]
    exact hrest

variable {es : List (UInt16 × UInt32)}

theorem deserialize_frame (h : es.length ≤ 0xFFFF) :
    deserializeSparseVec (some (frame es)) = some (.ok (setAll es {})) := by
  have hlen := length_frame es
  have hcount : (UInt16.ofNat es.length).toNat = es.length := toNat_ofNat16 h
  have hheader : readLE16 (frame es) 0 = some (UInt16.ofNat es.length) := by
    have hat : readLE16 ([] ++ (leBytes 2 (UInt16.ofNat es.length).toNat ++ es.flatMap entryBytes)) 0 = _ :=
      readLE16_at (UInt16.ofNat es.length) rfl
    rwa [hcount, List.nil_append] at hat
  have hterms : readTerms (frame es) es.length 2 {} = some (setAll es {}) := by
    have hread := readTerms_frame es (leBytes 2 es.length) {}
    rwa [length_leBytes] at hread
  rw [deserializeSparseVec, if_neg (by omega), if_neg (by omega), hheader]
  simp only [Option.bind_eq_bind, Option.bind_some, hcount]
  rw [if_neg (by omega), if_neg (by omega), hterms, Option.map_some]

theorem frame_of_length {data : Bytes} {n : Nat} (hn : leNat (data.take 2) = n)
    (hlen : data.length = 2 + n * kEntrySize) : ∃ es : List (UInt16 × UInt32), es.length = n ∧ data = frame es := by
  obtain ⟨es, hes, hrest⟩ := entries_of_length
    (show (data.drop 2).length = n * kEntrySize by rw [List.length_drop]; omega)
  have htwo : (data.take 2).length = 2 := by rw [List.length_take]; omega
  refine ⟨es, hes, ?_⟩
  have hhead := leBytes_leNat (data.take 2)
  rw [htwo, hn] at hhead
  rw [frame, hes, hhead, ← hrest, List.take_append_drop]

/-! ## What a blob declares -/

def declaredCount (data : Bytes) : Nat := leNat (data.take 2)

def declaredIds (data : Bytes) : List Nat :=
  (List.range (declaredCount data)).map fun i => leNat ((data.drop (2 + i * kEntrySize)).take 2)

theorem declaredCount_frame (h : es.length ≤ 0xFFFF) : declaredCount (frame es) = es.length := by
  rw [declaredCount, frame, List.take_left' (length_leBytes _ _), leNat_leBytes_of_lt (by omega)]

theorem drop_flatMap_entryBytes (es : List (UInt16 × UInt32)) (i : Nat) :
    (es.flatMap entryBytes).drop (i * kEntrySize) = (es.drop i).flatMap entryBytes := by
  induction i generalizing es with
  | zero => rw [Nat.zero_mul, List.drop_zero, List.drop_zero]
  | succ i ih =>
    cases es with
    | nil => rw [List.flatMap_nil, List.drop_nil, List.drop_nil, List.flatMap_nil]
    | cons e es =>
      rw [Nat.succ_mul, Nat.add_comm, ← List.drop_drop, List.flatMap_cons, List.drop_left' (length_entryBytes e), ih,
        List.drop_succ_cons]

theorem declaredIds_frame (h : es.length ≤ 0xFFFF) : declaredIds (frame es) = es.map fun e => e.1.toNat := by
  rw [declaredIds, declaredCount_frame h]
  refine List.ext_getElem (by simp) fun i hi hi' => ?_
  have hlt : i < es.length := by simpa using hi'
  rw [List.getElem_map, List.getElem_range, List.getElem_map, frame, ← List.drop_drop,
    List.drop_left' (length_leBytes _ _), drop_flatMap_entryBytes, List.drop_eq_getElem_cons hlt, List.flatMap_cons,
    entryBytes, List.append_assoc, List.take_left' (length_leBytes _ _), leNat_leBytes_of_lt (k := 2) es[i].1.toNat_lt]

/-! ## Exactness -/

def narrow (t : Fin (2 ^ 32) × UInt32) : UInt16 × UInt32 := (UInt16.ofNat t.1, t.2)

theorem widen_narrow {t : Fin (2 ^ 32) × UInt32} (h : t.1.val ≤ 0xFFFF) : (widen (narrow t).1, (narrow t).2) = t := by
  refine Prod.ext (Fin.ext ?_) rfl
  exact toNat_ofNat16 h

theorem foldl_append_entry (es : List (Fin (2 ^ 32) × UInt32)) (out : Bytes) :
    es.foldl (fun out e => appendLE32 (appendLE16 out (UInt16.ofNat e.1)) e.2) out =
      out ++ (es.map narrow).flatMap entryBytes := by
  induction es generalizing out with
  | nil => exact (List.append_nil out).symm
  | cons e es ih =>
    rw [List.foldl_cons, ih, List.map_cons, List.flatMap_cons, appendLE32, appendLE16, entryBytes, narrow,
      List.append_assoc, List.append_assoc, List.append_assoc]

theorem serialize_eq {vec : SparseVector} (hlen : vec.terms.entries.length ≤ 0xFFFF)
    (hids : ∀ t ∈ vec.terms.entries, t.1.val ≤ 0xFFFF) :
    serializeSparseVec vec = (frame (vec.terms.entries.map narrow), true) := by
  have hany : ¬ (vec.terms.entries.any fun e => 0xFFFF < e.1.val) = true := by
    simpa only [List.any_eq_true, decide_eq_true_eq, not_exists, not_and, not_lt] using hids
  have hcount : (UInt16.ofNat vec.terms.entries.length).toNat = vec.terms.entries.length :=
    toNat_ofNat16 hlen
  rw [serializeSparseVec, if_neg (by omega), if_neg hany]
  dsimp only
  rw [foldl_append_entry, appendLE16, List.nil_append, hcount, frame, List.length_map]

theorem setAll_terms (h : es.Pairwise fun a b => a.1.toNat < b.1.toNat) :
    (setAll es {}).terms.entries = es.map fun e => (widen e.1, e.2) := by
  have hfold : ∀ vec : SparseVector,
      (setAll es vec).terms = (es.map fun e => (widen e.1, e.2)).foldl (fun m e => m.set e.1 e.2) vec.terms := by
    intro vec
    rw [setAll, List.foldl_map]
    induction es generalizing vec with
    | nil => rfl
    | cons e es ih => exact ih h.of_cons ⟨vec.terms.set (widen e.1) e.2⟩
  rw [hfold, OrderedMap.foldl_set_entries]
  · exact List.nil_append _
  · exact List.pairwise_map.mpr h

theorem deserialize_serialize {vec : SparseVector} (hlen : vec.terms.entries.length ≤ 0xFFFF)
    (hids : ∀ t ∈ vec.terms.entries, t.1.val ≤ 0xFFFF) :
    deserializeSparseVec (some (serializeSparseVec vec).1) = some (.ok vec) := by
  have hmap : (vec.terms.entries.map narrow).map (fun e => (widen e.1, e.2)) = vec.terms.entries := by
    rw [List.map_map]
    exact (List.map_congr_left fun t ht => widen_narrow (hids t ht)).trans (List.map_id _)
  have hsorted : (vec.terms.entries.map narrow).Pairwise fun a b => a.1.toNat < b.1.toNat := by
    refine List.pairwise_map.mpr (vec.terms.sorted.imp_of_mem fun {a b} ha hb hlt => ?_)
    rw [narrow, narrow, toNat_ofNat16 (hids a ha), toNat_ofNat16 (hids b hb)]
    exact hlt
  rw [serialize_eq hlen hids, deserialize_frame (by rwa [List.length_map])]
  congr 2
  apply SparseVector.ext
  apply OrderedMap.ext
  rw [setAll_terms hsorted, hmap]

theorem serialize_setAll (hlen : es.length ≤ 0xFFFF) (h : es.Pairwise fun a b => a.1.toNat < b.1.toNat) :
    serializeSparseVec (setAll es {}) = (frame es, true) := by
  have hterms := setAll_terms h
  have hback : (es.map fun e => (widen e.1, e.2)).map narrow = es := by
    rw [List.map_map]
    refine (List.map_congr_left fun e _ => ?_).trans (List.map_id es)
    exact Prod.ext UInt16.ofNat_toNat rfl
  rw [serialize_eq, hterms, hback]
  · rwa [hterms, List.length_map]
  · rw [hterms]
    intro t ht
    obtain ⟨e, -, rfl⟩ := List.mem_map.mp ht
    exact Nat.le_of_lt_succ e.1.toNat_lt

/-- A string is empty, a blob of as many entries as it declares, or rejected. -/
theorem deserialize_cases (data : Bytes) : data = [] ∨
    (∃ es : List (UInt16 × UInt32), es.length ≤ 0xFFFF ∧ data = frame es) ∨
    ∃ e, deserializeSparseVec (some data) = some (.error e) := by
  by_cases hpos : data.length = 0
  · exact .inl (List.eq_nil_of_length_eq_zero hpos)
  · right
    rw [deserializeSparseVec, if_neg hpos]
    by_cases htwo : data.length < 2
    · exact .inr ⟨_, if_pos htwo⟩
    · have hhead : readLE16 data 0 = some (UInt16.ofNat (declaredCount data)) := by
        rw [readLE16, readAt_eq_some (by omega), List.drop_zero, Option.map_some, declaredCount]
      have hcount : declaredCount data ≤ 0xFFFF := by
        have hbound := leNat_lt (data.take 2)
        have hlen : (data.take 2).length = 2 := by rw [List.length_take]; omega
        rw [hlen] at hbound
        exact Nat.le_of_lt_succ hbound
      rw [if_neg htwo, hhead]
      simp only [Option.bind_eq_bind, Option.bind_some, toNat_ofNat16 hcount]
      by_cases hshort : data.length < 2 + declaredCount data * kEntrySize
      · exact .inr ⟨_, if_pos hshort⟩
      · by_cases hlong : 2 + declaredCount data * kEntrySize < data.length
        · rw [if_neg hshort, if_pos hlong]
          exact .inr ⟨_, rfl⟩
        · obtain ⟨es, hes, hdata⟩ := frame_of_length rfl
            (show data.length = 2 + declaredCount data * kEntrySize by omega)
          exact .inl ⟨es, by rw [hes]; exact hcount, hdata⟩

theorem frame_of_deserialize {data : Bytes} {vec : SparseVector}
    (h : deserializeSparseVec (some data) = some (.ok vec)) (hne : data ≠ []) :
    ∃ es : List (UInt16 × UInt32), es.length ≤ 0xFFFF ∧ data = frame es ∧ vec = setAll es {} := by
  rcases deserialize_cases data with hnil | ⟨es, hes, rfl⟩ | ⟨e, he⟩
  · exact absurd hnil hne
  · rw [deserialize_frame hes] at h
    cases h
    exact ⟨es, hes, rfl, rfl⟩
  · rw [he] at h
    cases h

/-- No read leaves the buffer. -/
theorem deserialize_reads_inside (data : Option Bytes) : (deserializeSparseVec data).isSome := by
  cases data with
  | none => rfl
  | some data =>
    rcases deserialize_cases data with rfl | ⟨es, hes, rfl⟩ | ⟨e, he⟩
    · rfl
    · rw [deserialize_frame hes]
      rfl
    · rw [he]
      rfl

/-- The vector is decoded from its encoding; a string that is accepted and not empty, a `NULL` column, has the length
that it declares, and is the encoding of what was read when its ids increase; a vector that does not fit is
rejected. -/
theorem codec_exact :
    (∀ vec : SparseVector, vec.terms.entries.length ≤ 0xFFFF → (∀ t ∈ vec.terms.entries, t.1.val ≤ 0xFFFF) →
      (serializeSparseVec vec).2 = true ∧
      deserializeSparseVec (some (serializeSparseVec vec).1) = some (.ok vec)) ∧
    (∀ (data : Bytes) (vec : SparseVector), data ≠ [] → deserializeSparseVec (some data) = some (.ok vec) →
      data.length = 2 + declaredCount data * kEntrySize ∧
      ((declaredIds data).Pairwise (· < ·) → serializeSparseVec vec = (data, true))) ∧
    deserializeSparseVec (some []) = some (.ok {}) ∧
    ∀ vec : SparseVector, (0xFFFF < vec.terms.entries.length ∨ ∃ t ∈ vec.terms.entries, 0xFFFF < t.1.val) →
      serializeSparseVec vec = ([], false) := by
  refine ⟨fun vec hlen hids => ?_, fun data vec hne h => ?_, rfl, fun vec h => ?_⟩
  · exact ⟨by rw [serialize_eq hlen hids], deserialize_serialize hlen hids⟩
  · obtain ⟨es, hes, rfl, rfl⟩ := frame_of_deserialize h hne
    refine ⟨by rw [length_frame, declaredCount_frame hes], fun hinc => ?_⟩
    rw [declaredIds_frame hes] at hinc
    exact serialize_setAll hes (List.pairwise_map.mp hinc)
  · rw [serializeSparseVec]
    split
    · rfl
    · rename_i hlen
      obtain ⟨t, ht, hlt⟩ := h.resolve_left hlen
      rw [if_pos]
      exact List.any_eq_true.mpr ⟨t, ht, decide_eq_true hlt⟩

theorem codec_exact_twoTerms :
    let vec : SparseVector := ⟨(OrderedMap.empty.set 7 0x3F800000).set 300 0x3F000000⟩
    let data := (serializeSparseVec vec).1
    ((serializeSparseVec vec).2 = true ∧ deserializeSparseVec (some data) = some (.ok vec)) ∧
      data.length = 2 + declaredCount data * kEntrySize ∧ serializeSparseVec vec = (data, true) := by
  intro vec data
  have hentries : vec.terms.entries = [(7, 0x3F800000), (300, 0x3F000000)] := rfl
  have hids : ∀ t ∈ vec.terms.entries, t.1.val ≤ 0xFFFF := by simp [hentries]
  have hread := codec_exact.1 vec (by decide) hids
  have hdata : data = frame [(7, 0x3F800000), (300, 0x3F000000)] := by
    show (serializeSparseVec vec).1 = _
    rw [serialize_eq (by decide) hids, hentries]
    rfl
  have hframe := codec_exact.2.1 data vec (by rw [hdata]; decide) hread.2
  exact ⟨hread, hframe.1, hframe.2 (by rw [hdata]; decide)⟩

/-- An empty string is accepted, declares no ids, and is not the encoding of what was read. -/
theorem empty_accepted :
    ¬ ∀ (data : Bytes) (vec : SparseVector), deserializeSparseVec (some data) = some (.ok vec) →
      data.length = 2 + declaredCount data * kEntrySize ∧
      ((declaredIds data).Pairwise (· < ·) → serializeSparseVec vec = (data, true)) := by
  intro h
  exact absurd (h [] {} rfl).1 (by decide)

end Cortrix.Retrieval.SparseCodec
