import Mathlib.Algebra.Order.Field.Basic
import Mathlib.Data.List.Dedup
import Cortrix.Query.PostFilter

/-!
# Discovery of documents

* `hit_not_hidden` : no hidden document is found; `pathScore_le` : a document that is hit once counts once.
-/

namespace Cortrix.Query
open Lib Metadata PostFilter Store.Documents

namespace DocDiscovery

structure DocDiscoveryHit where
  docId : String
  viaPath : String
  summaryText : String := ""
  keywords : List String := []
  topics : List String := []
  oneLiner : String := ""
  filename : String := ""
  docTitle : String := ""
  matchScore : Rat := 0

structure DocFtsRow where
  docId : String
  filename : String
  docTitle : String

structure DocFtsHit where
  docId : String
  filename : String
  docTitle : String
  score : Rat

/-! ## The hidden documents -/

def loadHiddenDocIds (r : Rows) (docIds : List String) : List String :=
  docIds.dedup.filter fun id => id != "" && (r.docGet id).any r.hidden

/-! ## The summary path -/

/-- The texts of an array; `none` when one is no text. -/
def textsOf (items : List Json) : Option (List String) :=
  items.mapM fun j =>
    match j with
    | .str s => some s
    | _ => none

/-- The metadata of a summary read into its hit, up to the first field of another type; `none` when it is not
`generated`. -/
def readSummary (m : Metadata) (hit : DocDiscoveryHit) : Option DocDiscoveryHit :=
  match getKey "status" m with
  | none => some (fields hit)
  | some (.str s) => if s = "generated" then some (fields hit) else none
  | some _ => some hit
where
  fields (hit : DocDiscoveryHit) : DocDiscoveryHit :=
    match getKey "keywords" m with
    | some (.arr items) =>
      match textsOf items with
      | some ks => topics { hit with keywords := ks }
      | none => hit
    | _ => topics hit
  topics (hit : DocDiscoveryHit) : DocDiscoveryHit :=
    match getKey "topics" m with
    | some (.arr items) =>
      match textsOf items with
      | some ts => oneLiner { hit with topics := ts }
      | none => hit
    | _ => oneLiner hit
  oneLiner (hit : DocDiscoveryHit) : DocDiscoveryHit :=
    match getKey "one_liner" m with
    | some (.str s) => { hit with oneLiner := s }
    | _ => hit

/-- The hit of a point; `none` when its block is no summary. -/
def summaryHit (r : Rows) (point : UInt64 × Rat) : Option DocDiscoveryHit :=
  match r.blockGet point.1 with
  | none => none
  | some b =>
    if b.blockType ≠ kBlockDocSummary then none
    else
      let hit : DocDiscoveryHit :=
        { docId := b.docId, viaPath := "llm_summary", summaryText := b.contentText, matchScore := 1 / (1 + point.2) }
      match b.metadata with
      | none => some hit
      | some m => readSummary m hit

/-- The hits of documents that are not hidden; all of them when the lookup fails. -/
def dropHidden (r : Rows) (lookupOk : Bool) (hits : List DocDiscoveryHit) : List DocDiscoveryHit :=
  if lookupOk then hits.filter fun h => !(loadHiddenDocIds r (hits.map (·.docId))).contains h.docId else hits

/-- `RecallDocSummaryHnsw` on the points that the index returns for the query. -/
def recallDocSummaryHnsw (r : Rows) (lookupOk : Bool) (topK : Int) (raw : List (UInt64 × Rat)) : List DocDiscoveryHit :=
  if topK ≤ 0 then []
  else
    ((dropHidden r lookupOk (raw.filterMap (summaryHit r))).mergeSort fun a b => b.matchScore ≤ a.matchScore).take
      topK.toNat

/-- What the index may return: at most `k` points, each once. -/
def IndexSearch (points : List UInt64) (k : Int) (raw : List (UInt64 × Rat)) : Prop :=
  raw.length ≤ k.toNat ∧ (raw.map (·.1)).Nodup ∧ ∀ p ∈ raw, p.1 ∈ points

/-! ## The full-text path -/

/-- The first `n` of some rows in an order; rows that tie come in any order. -/
def FirstOf {α : Type} (le : α → α → Prop) (n : Nat) (rows out : List α) : Prop :=
  ∃ rest, (out ++ rest).Perm rows ∧ (out ++ rest).Pairwise le ∧ out.length = min n rows.length

/-- The rows of documents that exist and are not hidden, with their rank. -/
def liveRows (r : Rows) (fts : List DocFtsRow) (bm25 : DocFtsRow → Option Rat) : List (DocFtsRow × Rat) :=
  fts.filterMap fun row =>
    match bm25 row, r.docGet row.docId with
    | some rank, some d => if r.hidden d then none else some (row, rank)
    | _, _ => none

def ftsHit (row : DocFtsRow × Rat) : DocFtsHit :=
  ⟨row.1.docId, row.1.filename, row.1.docTitle, 1 / (1 + max 0 (-row.2))⟩

/-- `SearchDocFts5` among the live documents; `bm25` is the rank of the rows that match. -/
def SearchDocFts5 (r : Rows) (fts : List DocFtsRow) (bm25 : DocFtsRow → Option Rat) (topK : Int)
    (hits : List DocFtsHit) : Prop :=
  if topK ≤ 0 then hits = []
  else ∃ out, FirstOf (fun a b => a.2 ≤ b.2) topK.toNat (liveRows r fts bm25) out ∧ hits = out.map ftsHit

/-! ## Fusion -/

def kDocDiscoveryRrfK : Int := 60

/-- The reciprocal ranks of a document in a path, from rank `n` on. -/
def pathScoreFrom (k : Int) (docId : String) : Nat → List String → Rat
  | _, [] => 0
  | n, id :: rest => (if id = docId then 1 / ((k : Rat) + (n : Rat)) else 0) + pathScoreFrom k docId (n + 1) rest

def pathScore (k : Int) (docId : String) (ids : List String) : Rat := pathScoreFrom k docId 0 ids

/-- The smoothing that is used for `k`. -/
def rrfK (k : Int) : Int := if k ≤ 0 then kDocDiscoveryRrfK else k

/-- The hit of a document before the cut: its last summary, else its first row. -/
def fuse (llm : List DocDiscoveryHit) (fts : List DocFtsHit) (k : Int) (docId : String) : DocDiscoveryHit :=
  let score := pathScore (rrfK k) docId (llm.map (·.docId)) + pathScore (rrfK k) docId (fts.map (·.docId))
  match llm.reverse.find? fun h => h.docId == docId with
  | some h => { h with matchScore := score }
  | none =>
    match fts.find? fun f => f.docId == docId with
    | some f =>
      { docId := docId, viaPath := "fts5_fallback", filename := f.filename, docTitle := f.docTitle, matchScore := score }
    | none => { docId := docId, viaPath := "", matchScore := score }

def fusedIds (llm : List DocDiscoveryHit) (fts : List DocFtsHit) : List String :=
  (llm.map (·.docId) ++ fts.map (·.docId)).dedup

/-- `FuseDocDiscovery`; its sort leaves ties in any order. -/
def FuseDocDiscovery (llm : List DocDiscoveryHit) (fts : List DocFtsHit) (topK k : Int) (out : List DocDiscoveryHit) :
    Prop :=
  let hits := (fusedIds llm fts).map (fuse llm fts k)
  FirstOf (fun a b => b.matchScore ≤ a.matchScore) (if 0 < topK then topK.toNat else hits.length) hits out

/-- `RunDocDiscoveryCore`: `raw` is what the index returns, `bm25` the query of the fallback; `none` when the path
fails or is off. -/
def RunDocDiscoveryCore (r : Rows) (fts : List DocFtsRow) (lookupOk : Bool) (topK : Int)
    (raw : Option (List (UInt64 × Rat))) (bm25 : Option (DocFtsRow → Option Rat)) (out : List DocDiscoveryHit) : Prop :=
  let k := if topK < 1 then 1 else topK
  let llm := (raw.map (recallDocSummaryHnsw r lookupOk k)).getD []
  ∃ ftsHits, (match bm25 with
      | some q => SearchDocFts5 r fts q k ftsHits
      | none => ftsHits = []) ∧
    FuseDocDiscovery llm ftsHits k kDocDiscoveryRrfK out

/-! ## Hidden documents are not found -/

variable {r : Rows} {fts : List DocFtsRow} {topK k : Int} {docId : String}

variable {ids : List String} {hit : DocDiscoveryHit}

theorem mem_loadHiddenDocIds :
    docId ∈ loadHiddenDocIds r ids ↔ docId ∈ ids ∧ docId ≠ "" ∧ ∃ d, r.docGet docId = some d ∧ r.hidden d = true := by
  simp [loadHiddenDocIds, List.mem_filter, Option.any_eq_true]

theorem docId_readSummary {m : Metadata} {hit' : DocDiscoveryHit} (h : readSummary m hit = some hit') :
    hit'.docId = hit.docId := by
  have hline : ∀ x : DocDiscoveryHit, (readSummary.oneLiner m x).docId = x.docId := by
    intro x
    unfold readSummary.oneLiner
    split <;> rfl
  have htopics : ∀ x : DocDiscoveryHit, (readSummary.topics m x).docId = x.docId := by
    intro x
    unfold readSummary.topics
    split
    · split
      · exact hline _
      · rfl
    · exact hline _
  have hfields : ∀ x : DocDiscoveryHit, (readSummary.fields m x).docId = x.docId := by
    intro x
    unfold readSummary.fields
    split
    · split
      · exact htopics _
      · rfl
    · exact htopics _
  unfold readSummary at h
  split at h
  · cases h
    exact hfields hit
  · split at h
    · cases h
      exact hfields hit
    · cases h
  · cases h
    rfl

theorem summaryHit_eq_some {point : UInt64 × Rat} (h : summaryHit r point = some hit) :
    ∃ b, r.blockGet point.1 = some b ∧ b.blockType = kBlockDocSummary ∧ hit.docId = b.docId := by
  unfold summaryHit at h
  split at h
  · cases h
  · rename_i b hb
    split at h
    · cases h
    · rename_i htype
      refine ⟨b, hb, not_not.mp htype, ?_⟩
      split at h
      · rw [← Option.some.inj h]
      · exact docId_readSummary h

theorem dropHidden_sublist (lookupOk : Bool) (hits : List DocDiscoveryHit) :
    (dropHidden r lookupOk hits).Sublist hits := by
  unfold dropHidden
  split
  · exact List.filter_sublist
  · exact List.Sublist.refl hits

theorem subperm_map {α β : Type} (f : α → β) {l l' : List α} (h : l.Subperm l') : (l.map f).Subperm (l'.map f) := by
  obtain ⟨m, hperm, hsub⟩ := h
  exact ⟨m.map f, hperm.map f, hsub.map f⟩

theorem recall_subperm (lookupOk : Bool) (raw : List (UInt64 × Rat)) :
    (recallDocSummaryHnsw r lookupOk topK raw).Subperm (raw.filterMap (summaryHit r)) := by
  unfold recallDocSummaryHnsw
  split
  · exact List.nil_subperm
  · refine (List.take_sublist _ _).subperm.trans ?_
    exact (List.mergeSort_perm _ _).subperm.trans (dropHidden_sublist lookupOk _).subperm

theorem recall_not_hidden {raw : List (UInt64 × Rat)} {d : CortrixDoc} (h : hit ∈ recallDocSummaryHnsw r true topK raw)
    (hd : r.docGet hit.docId = some d) (hname : hit.docId ≠ "") : r.hidden d = false := by
  unfold recallDocSummaryHnsw at h
  split at h
  · cases h
  · have hmem := List.mem_mergeSort.mp (List.mem_of_mem_take h)
    rw [dropHidden, if_pos rfl, List.mem_filter, Bool.not_eq_true', List.contains_eq_mem, decide_eq_false_iff_not,
      mem_loadHiddenDocIds] at hmem
    refine Bool.eq_false_iff.mpr fun hhid => hmem.2 ⟨List.mem_map_of_mem hmem.1, hname, d, hd, hhid⟩

theorem mem_liveRows {bm25 : DocFtsRow → Option Rat} {x : DocFtsRow × Rat} (h : x ∈ liveRows r fts bm25) :
    x.1 ∈ fts ∧ ∃ d, r.docGet x.1.docId = some d ∧ r.hidden d = false := by
  obtain ⟨row, hrow, hx⟩ := List.mem_filterMap.mp h
  split at hx
  · rename_i rank d _ hd
    split at hx
    · cases hx
    · rename_i hhid
      cases hx
      exact ⟨hrow, d, hd, by simpa using hhid⟩
  · cases hx

theorem liveRows_docIds_sublist (bm25 : DocFtsRow → Option Rat) :
    ((liveRows r fts bm25).map fun x => x.1.docId).Sublist (fts.map (·.docId)) := by
  induction fts with
  | nil => exact List.Sublist.refl []
  | cons row fts ih =>
    unfold liveRows at ih ⊢
    rw [List.filterMap_cons]
    split
    · exact ih.cons _
    · rename_i x hx
      split at hx
      · split at hx
        · cases hx
        · cases hx
          exact ih.cons_cons _
      · cases hx

theorem searchDocFts5_subperm {bm25 : DocFtsRow → Option Rat} {hits : List DocFtsHit}
    (h : SearchDocFts5 r fts bm25 topK hits) :
    ∃ out : List (DocFtsRow × Rat), out.Subperm (liveRows r fts bm25) ∧ hits = out.map ftsHit := by
  unfold SearchDocFts5 at h
  split at h
  · exact ⟨[], List.nil_subperm, h⟩
  · obtain ⟨out, ⟨rest, hperm, -⟩, rfl⟩ := h
    exact ⟨out, (List.sublist_append_left out rest).subperm.trans hperm.subperm, rfl⟩

/-! ## Scores -/

theorem pathScoreFrom_of_notMem (h : docId ∉ ids) (n : Nat) : pathScoreFrom k docId n ids = 0 := by
  induction ids generalizing n with
  | nil => rfl
  | cons id rest ih =>
    rw [List.mem_cons, not_or] at h
    rw [pathScoreFrom, if_neg (Ne.symm h.1), ih h.2, add_zero]

theorem pathScoreFrom_le (hk : 0 < k) (h : ids.count docId ≤ 1) (n : Nat) :
    pathScoreFrom k docId n ids ≤ 1 / (k : Rat) := by
  have hk' : (0 : Rat) < k := Int.cast_pos.mpr hk
  induction ids generalizing n with
  | nil => exact one_div_nonneg.mpr hk'.le
  | cons id rest ih =>
    unfold pathScoreFrom
    by_cases hid : id = docId
    · have hrest : docId ∉ rest := by
        rw [hid, List.count_cons_self] at h
        exact List.count_eq_zero.mp (by omega)
      rw [if_pos hid, pathScoreFrom_of_notMem hrest, add_zero]
      exact one_div_le_one_div_of_le hk' (le_add_of_nonneg_right (Nat.cast_nonneg n))
    · rw [if_neg hid, zero_add]
      exact ih (by rwa [List.count_cons_of_ne hid] at h) (n + 1)

theorem pathScore_le (hk : 0 < k) (h : ids.count docId ≤ 1) : pathScore k docId ids ≤ 1 / (k : Rat) :=
  pathScoreFrom_le hk h 0

theorem fuse_spec (llm : List DocDiscoveryHit) (fts : List DocFtsHit) (k : Int) (docId : String) :
    (fuse llm fts k docId).docId = docId ∧ (fuse llm fts k docId).matchScore =
      pathScore (rrfK k) docId (llm.map (·.docId)) + pathScore (rrfK k) docId (fts.map (·.docId)) := by
  unfold fuse
  split
  · rename_i h hfind
    exact ⟨by simpa using List.find?_some hfind, rfl⟩
  · split <;> exact ⟨rfl, rfl⟩

theorem mem_fuseDocDiscovery {llm : List DocDiscoveryHit} {ftsHits : List DocFtsHit} {out : List DocDiscoveryHit}
    (h : FuseDocDiscovery llm ftsHits topK k out) (hmem : hit ∈ out) :
    hit = fuse llm ftsHits k hit.docId ∧ hit.docId ∈ fusedIds llm ftsHits := by
  obtain ⟨rest, hperm, -⟩ := h
  obtain ⟨id, hid, rfl⟩ := List.mem_map.mp (hperm.mem_iff.mp (List.mem_append_left rest hmem))
  rw [(fuse_spec llm ftsHits k id).1]
  exact ⟨rfl, hid⟩

theorem hit_not_hidden {raw : Option (List (UInt64 × Rat))} {bm25 : Option (DocFtsRow → Option Rat)}
    {out : List DocDiscoveryHit} {d : CortrixDoc} (h : RunDocDiscoveryCore r fts true topK raw bm25 out)
    (hmem : hit ∈ out) (hd : r.docGet hit.docId = some d) (hname : hit.docId ≠ "") : r.hidden d = false := by
  obtain ⟨ftsHits, hfts, hfuse⟩ := h
  obtain ⟨-, hid⟩ := mem_fuseDocDiscovery hfuse hmem
  rw [fusedIds, List.mem_dedup, List.mem_append] at hid
  rcases hid with hid | hid
  · obtain ⟨x, hx, hxid⟩ := List.mem_map.mp hid
    cases raw with
    | none => cases hx
    | some raw => exact recall_not_hidden hx (hxid ▸ hd) (hxid ▸ hname)
  · obtain ⟨x, hx, hxid⟩ := List.mem_map.mp hid
    cases bm25 with
    | none =>
      rw [show ftsHits = [] from hfts] at hx
      cases hx
    | some q =>
      obtain ⟨rows, hsub, rfl⟩ := searchDocFts5_subperm hfts
      obtain ⟨row, hrow, rfl⟩ := List.mem_map.mp hx
      obtain ⟨-, d', hd', hhid⟩ := mem_liveRows (hsub.subset hrow)
      rw [← hxid, show (ftsHit row).docId = row.1.docId from rfl, hd'] at hd
      rwa [← Option.some.inj hd]

end DocDiscovery

end Cortrix.Query
