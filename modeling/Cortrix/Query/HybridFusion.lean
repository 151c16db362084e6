import Cortrix.Lib.Tally
import Mathlib.Tactic.Linarith

/-!
# Fusing chunk hits and document hits by document

A document scores the best reciprocal rank of its chunk hits plus the best of its document hits, and is shown by its
best chunk, or by its best document hit when no chunk was found.

* scores are exact; `fmt` stands for `std::to_string`;
* `fuseHybrid_fused` : what the fusion returns.
-/

namespace Cortrix.Query.HybridFusion
open Lib

abbrev TextMap := List (String × String)

structure ScoreSignals where
  enrichedScore : Option Rat := none
  semanticScore : Option Rat := none

structure RankedChunk where
  child_id : String
  chunk_text : String := ""
  parent_text : String := ""
  score : Rat := 0
  rerank_score : Rat := 0
  score_signals : ScoreSignals := {}
  metadata : TextMap := []
  parent_id : String := ""
  evidence_kind : String := ""

def kHybridRrfK : Nat := 60

/-! ## Metadata -/

def find (key : String) (m : TextMap) : Option String := (lookup Prod.fst key m).map Prod.snd

def assign (key value : String) (m : TextMap) : TextMap := upsertRow Prod.fst (key, value) m

/-- A key that is there keeps its value. -/
def assignNew (key value : String) (m : TextMap) : TextMap := if (find key m).isNone then assign key value m else m

def MetadataValue (m : TextMap) (key : String) : String := (find key m).getD ""

theorem find_assign (key value key' : String) (m : TextMap) :
    find key' (assign key value m) = if key' = key then some value else find key' m := by
  rw [find, assign, lookup_upsertRow]
  split <;> rfl

theorem find_assignNew_ne {key key' : String} (h : key' ≠ key) (value : String) (m : TextMap) :
    find key' (assignNew key value m) = find key' m := by
  unfold assignNew
  split
  · rw [find_assign, if_neg h]
  · rfl

/-! ## Documents and paths -/

/-- The first of the three ids that is not empty, else the chunk's own. -/
def HybridDocId (rc : RankedChunk) : String :=
  if MetadataValue rc.metadata "doc_id" ≠ "" then MetadataValue rc.metadata "doc_id"
  else if MetadataValue rc.metadata "source_doc_id" ≠ "" then MetadataValue rc.metadata "source_doc_id"
  else if MetadataValue rc.metadata "hybrid_doc_id" ≠ "" then MetadataValue rc.metadata "hybrid_doc_id"
  else rc.child_id

def HybridPath (rc : RankedChunk) (fallback : String) : String :=
  if fallback = "chunk" then "chunk"
  else if MetadataValue rc.metadata "via_path" ≠ "" then MetadataValue rc.metadata "via_path"
  else fallback

def IsDocEvidencePath (path : String) : Bool := path ≠ "chunk"

def AppendUniquePath (paths : List String) (path : String) : List String :=
  if path ∈ paths then paths else paths ++ [path]

def JoinPaths (paths : List String) : String := ",".intercalate paths

def ShouldOverlayDocEvidence (key : String) : Bool :=
  ["doc_discovery_match_score", "doc_summary_match_score", "doc_fts5_match_score", "one_liner", "doc_title", "filename",
    "doc_discovery_via_path"].contains key

/-- A key that is there keeps its value, unless it is one that is overlaid. -/
def overlay (m : TextMap) (kv : String × String) : TextMap :=
  if (find kv.1 m).isNone || ShouldOverlayDocEvidence kv.1 then assign kv.1 kv.2 m else m

structure HybridCandidate where
  chunk : RankedChunk
  doc_id : String
  fused_score : Rat := 0
  best_contribution : Rat := -1
  best_chunk_contribution : Rat := -1
  best_doc_contribution : Rat := -1
  best_chunk_score : Rat := 0
  best_doc_score : Rat := 0
  best_chunk_rerank_score : Rat := 0
  best_doc_rerank_score : Rat := 0
  has_chunk : Bool := false
  has_doc : Bool := false
  paths : List String := []
  doc_evidence_metadata : TextMap := []

/-- The evidence of a document hit, without its path. -/
def captured (evidence metadata : TextMap) : TextMap :=
  metadata.foldl (fun m kv => if kv.1 = "via_path" then m else overlay m kv) evidence

def CaptureDocEvidenceMetadata (cand : HybridCandidate) (rc : RankedChunk) : HybridCandidate :=
  { cand with doc_evidence_metadata := captured cand.doc_evidence_metadata rc.metadata }

def ApplyDocEvidenceMetadata (cand : HybridCandidate) : HybridCandidate :=
  { cand with chunk.metadata := cand.doc_evidence_metadata.foldl overlay cand.chunk.metadata }

/-! ## Reading the two lists -/

structure Hit where
  rc : RankedChunk
  doc_id : String
  source_path : String
  source_score : Rat
  source_rerank_score : Rat
  contribution : Rat

def Hit.is_doc_path (h : Hit) : Bool := IsDocEvidencePath h.source_path

/-- The hit at index `rank` of a list; `none` for one that names no document. -/
def readHit (fmt : Rat → String) (path : String) (e : RankedChunk × Nat) : Option Hit :=
  let rc := e.1
  let doc_id := HybridDocId rc
  if doc_id = "" then none
  else
    let source_path := HybridPath rc path
    let m₁ := if !IsDocEvidencePath source_path || (find "via_path" rc.metadata).isNone then
        assign "via_path" source_path rc.metadata
      else rc.metadata
    let m₂ := assignNew "source_doc_id" doc_id (assignNew "doc_id" doc_id m₁)
    let m₃ := assign "hybrid_source_path" source_path (assign "hybrid_doc_id" doc_id m₂)
    let m₄ := assign "hybrid_source_rerank_score" (fmt rc.rerank_score) (assign "hybrid_source_score" (fmt rc.score) m₃)
    some ⟨{ rc with metadata := m₄ }, doc_id, source_path, rc.score, rc.rerank_score,
      1 / ((kHybridRrfK : Rat) + (e.2 : Rat))⟩

def newCandidate (h : Hit) : HybridCandidate :=
  let cand : HybridCandidate := {
    chunk := h.rc, doc_id := h.doc_id, fused_score := h.contribution, best_contribution := h.contribution
    paths := AppendUniquePath [] h.source_path }
  if h.is_doc_path then
    CaptureDocEvidenceMetadata { cand with
      has_doc := true, best_doc_contribution := h.contribution, best_doc_score := h.source_score
      best_doc_rerank_score := h.source_rerank_score } cand.chunk
  else
    { cand with
      has_chunk := true, best_chunk_contribution := h.contribution, best_chunk_score := h.source_score
      best_chunk_rerank_score := h.source_rerank_score }

/-- The chunk of a hit that becomes the representative. -/
def Hit.shown (h : Hit) : RankedChunk :=
  { h.rc with metadata := assign "hybrid_source_path" h.source_path h.rc.metadata }

def addDocHit (cand : HybridCandidate) (h : Hit) : HybridCandidate :=
  let c₁ := CaptureDocEvidenceMetadata
    { cand with paths := AppendUniquePath cand.paths h.source_path, has_doc := true } h.rc
  let c₂ := if c₁.best_doc_contribution < h.contribution then
      { c₁ with
        best_doc_contribution := h.contribution, best_doc_score := h.source_score
        best_doc_rerank_score := h.source_rerank_score }
    else c₁
  if !c₂.has_chunk && decide (c₂.best_contribution < h.contribution) then
    { c₂ with chunk := h.shown, best_contribution := h.contribution }
  else c₂

def addChunkHit (cand : HybridCandidate) (h : Hit) : HybridCandidate :=
  let c₁ : HybridCandidate := { cand with paths := AppendUniquePath cand.paths h.source_path, has_chunk := true }
  let c₂ := if c₁.best_chunk_contribution < h.contribution then
      { c₁ with
        best_chunk_contribution := h.contribution, best_chunk_score := h.source_score
        best_chunk_rerank_score := h.source_rerank_score }
    else c₁
  if decide (c₂.best_contribution < h.contribution) || IsDocEvidencePath (MetadataValue c₂.chunk.metadata "via_path") then
    ApplyDocEvidenceMetadata { c₂ with chunk := h.shown, best_contribution := h.contribution }
  else c₂

def addHit (cand : HybridCandidate) (h : Hit) : HybridCandidate :=
  if h.is_doc_path then addDocHit cand h else addChunkHit cand h

/-- The candidates by document, in the order of first appearance. -/
abbrev Candidates := List (String × HybridCandidate)

def addPath (fmt : Rat → String) (cands : Candidates) (source : List RankedChunk) (path : String) : Candidates :=
  source.zipIdx.foldl (fun cands e =>
    match readHit fmt path e with
    | none => cands
    | some h => tallyStep Hit.doc_id (fun _ => newCandidate) addHit cands h) cands

def candidates (fmt : Rat → String) (chunk_chunks doc_chunks : List RankedChunk) : Candidates :=
  addPath fmt (addPath fmt [] chunk_chunks "chunk") doc_chunks "doc"

/-! ## The result -/

def withFusedScore (cand : HybridCandidate) : HybridCandidate :=
  { cand with
    fused_score := (if cand.has_chunk then cand.best_chunk_contribution else 0) +
      (if cand.has_doc then cand.best_doc_contribution else 0) }

/-- The comparator of `std::stable_sort`. -/
def candBefore (a b : HybridCandidate) : Bool :=
  if a.fused_score ≠ b.fused_score then decide (b.fused_score < a.fused_score)
  else if a.has_chunk ≠ b.has_chunk then a.has_chunk
  else a.has_chunk && decide (b.best_chunk_score < a.best_chunk_score)

def boolText (b : Bool) : String := if b then "true" else "false"

def finish (fmt : Rat → String) (cand : HybridCandidate) : RankedChunk :=
  let c := ApplyDocEvidenceMetadata cand
  let m₁ := assign "hybrid_doc_id" c.doc_id (assign "source_doc_id" c.doc_id (assign "doc_id" c.doc_id c.chunk.metadata))
  let m₂ := assign "hybrid_paths" (JoinPaths c.paths) (assign "hybrid_rrf_score" (fmt c.fused_score) m₁)
  let m₃ := assign "hybrid_has_doc" (boolText c.has_doc) (assign "hybrid_has_chunk" (boolText c.has_chunk) m₂)
  let m₄ := if c.has_chunk then
      assign "hybrid_chunk_rerank_score" (fmt c.best_chunk_rerank_score)
        (assign "hybrid_chunk_score" (fmt c.best_chunk_score) m₃)
    else m₃
  let m₅ := if c.has_doc then
      assign "hybrid_doc_rerank_score" (fmt c.best_doc_rerank_score)
        (assign "hybrid_doc_score" (fmt c.best_doc_score) m₄)
    else m₄
  let m₆ := if c.has_chunk && c.has_doc then assign "via_path" "hybrid" m₅
    else if c.has_chunk then assign "via_path" "chunk" m₅
    else match c.paths with
      | [] => m₅
      | path :: _ => assign "via_path" path m₅
  { c.chunk with score := c.fused_score, metadata := m₆ }

def FuseHybridChunksByDocId (fmt : Rat → String) (chunk_chunks doc_chunks : List RankedChunk) (top_k : Int) :
    List RankedChunk :=
  let sorted := ((candidates fmt chunk_chunks doc_chunks).map fun e => withFusedScore e.2).mergeSort
    fun a b => !candBefore b a
  (sorted.take (if top_k < 1 then 1 else top_k.toNat)).map (finish fmt)

/-! ## The hits of a document -/

def hits (fmt : Rat → String) (chunk_chunks doc_chunks : List RankedChunk) : List Hit :=
  chunk_chunks.zipIdx.filterMap (readHit fmt "chunk") ++ doc_chunks.zipIdx.filterMap (readHit fmt "doc")

def chunkPart (hs : List Hit) : List Hit := hs.filter fun h => !h.is_doc_path

def docPart (hs : List Hit) : List Hit := hs.filter fun h => h.is_doc_path

/-- The hits one of which represents the document. -/
def pool (hs : List Hit) : List Hit := if (chunkPart hs).isEmpty then docPart hs else chunkPart hs

def bestOf (hs : List Hit) : Rat := hs.foldl (fun m h => if m < h.contribution then h.contribution else m) 0

def bare (rc : RankedChunk) : RankedChunk := { rc with score := 0, metadata := [] }

theorem bestOf_snoc (hs : List Hit) (h : Hit) :
    bestOf (hs ++ [h]) = if bestOf hs < h.contribution then h.contribution else bestOf hs := by
  rw [bestOf, List.foldl_append]
  rfl

/-- What reading a hit keeps, and the path it leaves in the metadata. -/
structure HitOk (h : Hit) : Prop where
  named : h.doc_id ≠ ""
  pos : 0 < h.contribution
  via : IsDocEvidencePath (MetadataValue h.rc.metadata "via_path") = h.is_doc_path

theorem isDocEvidencePath_iff {path : String} : IsDocEvidencePath path = true ↔ path ≠ "chunk" := by
  simp [IsDocEvidencePath]

variable {h : Hit} {hs : List Hit}

theorem readHit_spec {fmt : Rat → String} {path : String} {e : RankedChunk × Nat} (hread : readHit fmt path e = some h) :
    HitOk h ∧ bare h.rc = bare e.1 ∧ h.doc_id = HybridDocId e.1 ∧ h.source_path = HybridPath e.1 path ∧
      h.contribution = 1 / ((kHybridRrfK : Rat) + (e.2 : Rat)) := by
  obtain ⟨rc, rank⟩ := e
  unfold readHit at hread
  dsimp only at hread
  split at hread
  · cases hread
  · rename_i hdoc
    cases hread
    refine ⟨⟨hdoc, ?_, ?_⟩, rfl, rfl, rfl, rfl⟩
    · have hrank : (0 : Rat) ≤ (rank : Rat) := Nat.cast_nonneg rank
      have hk : (0 : Rat) < (kHybridRrfK : Rat) := by norm_num [kHybridRrfK]
      exact one_div_pos.mpr (by linarith)
    · simp only [MetadataValue, Hit.is_doc_path]
      rw [find_assign, if_neg (by decide), find_assign, if_neg (by decide), find_assign, if_neg (by decide),
        find_assign, if_neg (by decide), find_assignNew_ne (by decide), find_assignNew_ne (by decide)]
      split
      · rw [find_assign, if_pos rfl]
        rfl
      · rename_i hkeep
        -- a path of the hit's own that is not written over
        simp only [Bool.or_eq_true, Bool.not_eq_true', not_or, Bool.not_eq_false, Option.isNone_iff_eq_none] at hkeep
        obtain ⟨hpath, hsome⟩ := hkeep
        rw [hpath, isDocEvidencePath_iff]
        intro hchunk
        rw [isDocEvidencePath_iff] at hpath
        apply hpath
        unfold HybridPath MetadataValue
        split
        · rfl
        · rw [hchunk, if_pos (by decide)]

/-! ## Candidates -/

theorem find_overlay_ne {key : String} {kv : String × String} (h : kv.1 ≠ key) (m : TextMap) :
    find key (overlay m kv) = find key m := by
  unfold overlay
  split
  · rw [find_assign, if_neg (Ne.symm h)]
  · rfl

theorem captured_via {evidence : TextMap} (h : find "via_path" evidence = none) (metadata : TextMap) :
    find "via_path" (captured evidence metadata) = none := by
  unfold captured
  induction metadata generalizing evidence with
  | nil => exact h
  | cons kv metadata ih =>
    rw [List.foldl_cons]
    apply ih
    split
    · exact h
    · rename_i hkey
      rw [find_overlay_ne hkey, h]

theorem applied_via {evidence : TextMap} (h : find "via_path" evidence = none) (m : TextMap) :
    find "via_path" (evidence.foldl overlay m) = find "via_path" m := by
  have hkeys : ∀ kv ∈ evidence, kv.1 ≠ "via_path" := lookup_eq_none.mp (Option.map_eq_none_iff.mp h)
  clear h
  induction evidence generalizing m with
  | nil => rfl
  | cons kv evidence ih =>
    obtain ⟨hkv, hrest⟩ := List.forall_mem_cons.mp hkeys
    rw [List.foldl_cons, ih _ hrest, find_overlay_ne hkv]

/-- What a candidate knows of the hits of its document: the best of both paths, and of the path that represents it the
hit with the best rank. -/
structure Tracks (hs : List Hit) (cand : HybridCandidate) : Prop where
  doc : ∀ h ∈ hs, h.doc_id = cand.doc_id
  chunks : cand.has_chunk = !(chunkPart hs).isEmpty
  docs : cand.has_doc = !(docPart hs).isEmpty
  bestChunk : cand.best_chunk_contribution = if (chunkPart hs).isEmpty then -1 else bestOf (chunkPart hs)
  bestDoc : cand.best_doc_contribution = if (docPart hs).isEmpty then -1 else bestOf (docPart hs)
  shown : ∃ h ∈ pool hs, cand.best_contribution = h.contribution ∧ (∀ h' ∈ pool hs, h'.contribution ≤ h.contribution) ∧
    bare cand.chunk = bare h.rc
  via : IsDocEvidencePath (MetadataValue cand.chunk.metadata "via_path") = (chunkPart hs).isEmpty
  evidence : find "via_path" cand.doc_evidence_metadata = none

theorem chunkPart_snoc (hs : List Hit) (h : Hit) :
    chunkPart (hs ++ [h]) = if h.is_doc_path then chunkPart hs else chunkPart hs ++ [h] := by
  unfold chunkPart
  rw [List.filter_append]
  cases hp : h.is_doc_path <;> simp [hp]

theorem docPart_snoc (hs : List Hit) (h : Hit) :
    docPart (hs ++ [h]) = if h.is_doc_path then docPart hs ++ [h] else docPart hs := by
  unfold docPart
  rw [List.filter_append]
  cases hp : h.is_doc_path <;> simp [hp]

theorem best_snoc {best : Rat} (hpos : 0 < h.contribution) (hbest : best = if hs.isEmpty then -1 else bestOf hs) :
    (if best < h.contribution then h.contribution else best) = bestOf (hs ++ [h]) := by
  rw [bestOf_snoc, hbest]
  cases hs with
  | nil =>
    have h1 : (-1 : Rat) < h.contribution := by linarith
    have h2 : bestOf [] < h.contribution := hpos
    rw [List.isEmpty_nil, if_pos rfl, if_pos h1, if_pos h2]
  | cons x hs => rfl

theorem shown_via (hok : HitOk h) : IsDocEvidencePath (MetadataValue h.shown.metadata "via_path") = h.is_doc_path := by
  rw [← hok.via]
  unfold Hit.shown MetadataValue
  rw [find_assign, if_neg (by decide)]

theorem tracks_new (hok : HitOk h) : Tracks [h] (newCandidate h) := by
  unfold newCandidate
  have hparts : chunkPart [h] = (if h.is_doc_path then [] else [h]) ∧ docPart [h] = if h.is_doc_path then [h] else [] :=
    ⟨chunkPart_snoc [] h, docPart_snoc [] h⟩
  have hbest : bestOf [h] = h.contribution := by
    rw [show [h] = [] ++ [h] from rfl, bestOf_snoc]
    exact if_pos hok.pos
  have hvia := hok.via
  by_cases hp : h.is_doc_path = true
  · rw [hp] at hparts hvia
    simp only [if_true] at hparts
    rw [if_pos hp]
    have hpool : pool [h] = [h] := by simp [pool, hparts]
    refine ⟨by simp [CaptureDocEvidenceMetadata], ?_, ?_, ?_, ?_, ⟨h, by simp [hpool], rfl, by simp [hpool], rfl⟩, ?_, ?_⟩
    · simp [hparts, CaptureDocEvidenceMetadata]
    · simp [hparts, CaptureDocEvidenceMetadata]
    · simp [hparts, CaptureDocEvidenceMetadata]
    · simp [hparts, CaptureDocEvidenceMetadata, hbest]
    · simpa [hparts, CaptureDocEvidenceMetadata] using hvia
    · exact captured_via rfl _
  · rw [Bool.not_eq_true] at hp
    rw [hp] at hparts hvia
    simp only [Bool.false_eq_true, if_false] at hparts
    rw [if_neg (by simp [hp])]
    have hpool : pool [h] = [h] := by simp [pool, hparts]
    refine ⟨by simp, ?_, ?_, ?_, ?_, ⟨h, by simp [hpool], rfl, by simp [hpool], rfl⟩, ?_, rfl⟩
    · simp [hparts]
    · simp [hparts]
    · simp [hparts, hbest]
    · simp [hparts]
    · simpa [hparts] using hvia

theorem addDocHit_fields (cand : HybridCandidate) (h : Hit) :
    (addDocHit cand h).doc_id = cand.doc_id ∧ (addDocHit cand h).has_chunk = cand.has_chunk ∧
      (addDocHit cand h).has_doc = true ∧
      (addDocHit cand h).best_chunk_contribution = cand.best_chunk_contribution ∧
      (addDocHit cand h).best_doc_contribution =
        (if cand.best_doc_contribution < h.contribution then h.contribution else cand.best_doc_contribution) ∧
      (addDocHit cand h).doc_evidence_metadata = captured cand.doc_evidence_metadata h.rc.metadata ∧
      ((addDocHit cand h).chunk, (addDocHit cand h).best_contribution) =
        if !cand.has_chunk && decide (cand.best_contribution < h.contribution) then (h.shown, h.contribution)
        else (cand.chunk, cand.best_contribution) := by
  unfold addDocHit CaptureDocEvidenceMetadata
  dsimp only
  by_cases h1 : cand.best_doc_contribution < h.contribution
  · rw [if_pos h1, if_pos h1]
    split <;> exact ⟨rfl, rfl, rfl, rfl, rfl, rfl, rfl⟩
  · rw [if_neg h1, if_neg h1]
    dsimp only
    split <;> exact ⟨rfl, rfl, rfl, rfl, rfl, rfl, rfl⟩

theorem addChunkHit_fields (cand : HybridCandidate) (h : Hit) :
    (addChunkHit cand h).doc_id = cand.doc_id ∧ (addChunkHit cand h).has_chunk = true ∧
      (addChunkHit cand h).has_doc = cand.has_doc ∧
      (addChunkHit cand h).best_doc_contribution = cand.best_doc_contribution ∧
      (addChunkHit cand h).best_chunk_contribution =
        (if cand.best_chunk_contribution < h.contribution then h.contribution else cand.best_chunk_contribution) ∧
      (addChunkHit cand h).doc_evidence_metadata = cand.doc_evidence_metadata ∧
      ((addChunkHit cand h).chunk, (addChunkHit cand h).best_contribution) =
        if decide (cand.best_contribution < h.contribution) ||
            IsDocEvidencePath (MetadataValue cand.chunk.metadata "via_path") then
          ({ h.shown with metadata := cand.doc_evidence_metadata.foldl overlay h.shown.metadata }, h.contribution)
        else (cand.chunk, cand.best_contribution) := by
  unfold addChunkHit ApplyDocEvidenceMetadata
  dsimp only
  by_cases h1 : cand.best_chunk_contribution < h.contribution
  · rw [if_pos h1, if_pos h1]
    split <;> exact ⟨rfl, rfl, rfl, rfl, rfl, rfl, rfl⟩
  · rw [if_neg h1, if_neg h1]
    dsimp only
    split <;> exact ⟨rfl, rfl, rfl, rfl, rfl, rfl, rfl⟩

theorem topped {r : Hit} (hall : ∀ x ∈ hs, x.contribution ≤ r.contribution) (hle : h.contribution ≤ r.contribution) :
    ∀ x ∈ hs ++ [h], x.contribution ≤ r.contribution :=
  List.forall_mem_append.mpr ⟨hall, List.forall_mem_singleton.mpr hle⟩

theorem Tracks.addDoc {cand : HybridCandidate} (ht : Tracks hs cand) (hok : HitOk h) (hp : h.is_doc_path = true)
    (hdoc : h.doc_id = cand.doc_id) : Tracks (hs ++ [h]) (addDocHit cand h) := by
  obtain ⟨f1, f2, f3, f4, f5, f6, f7⟩ := addDocHit_fields cand h
  have hc : chunkPart (hs ++ [h]) = chunkPart hs := by rw [chunkPart_snoc, if_pos hp]
  have hd : docPart (hs ++ [h]) = docPart hs ++ [h] := by rw [docPart_snoc, if_pos hp]
  have hchunk := congrArg Prod.fst f7
  have hbest := congrArg Prod.snd f7
  dsimp only at hchunk hbest
  obtain ⟨r, hr, hrbest, hrmax, hrbare⟩ := ht.shown
  constructor
  · rw [f1]
    exact List.forall_mem_append.mpr ⟨ht.doc, List.forall_mem_singleton.mpr hdoc⟩
  · rw [f2, hc, ht.chunks]
  · rw [f3, hd]
    simp
  · rw [f4, hc, ht.bestChunk]
  · rw [f5, hd, best_snoc hok.pos ht.bestDoc]
    simp
  · have hpool : pool (hs ++ [h]) = if (chunkPart hs).isEmpty then docPart hs ++ [h] else chunkPart hs := by
      rw [pool, hc, hd]
    rw [hpool, hchunk, hbest, ht.chunks, Bool.not_not]
    by_cases hnone : (chunkPart hs).isEmpty = true
    · -- no chunk yet: the document hit with the best rank
      rw [pool, if_pos hnone] at hr hrmax
      rw [if_pos hnone, hnone, Bool.true_and]
      by_cases hlt : cand.best_contribution < h.contribution
      · rw [if_pos (by simpa using hlt)]
        have hbelow : ∀ x ∈ docPart hs, x.contribution ≤ h.contribution :=
          fun x hx => (hrmax x hx).trans (hrbest ▸ hlt.le)
        exact ⟨h, by simp, rfl, topped hbelow le_rfl, rfl⟩
      · rw [if_neg (by simpa using hlt)]
        exact ⟨r, List.mem_append_left _ hr, hrbest, topped hrmax (hrbest ▸ not_lt.mp hlt), hrbare⟩
    · rw [pool, if_neg hnone] at hr hrmax
      rw [if_neg hnone, eq_false_of_ne_true hnone, Bool.false_and, if_neg (by simp)]
      exact ⟨r, hr, hrbest, hrmax, hrbare⟩
  · rw [hchunk, hc]
    split
    · rename_i hnew
      rw [shown_via hok, hp]
      rw [ht.chunks] at hnew
      simp only [Bool.not_not, Bool.and_eq_true] at hnew
      exact hnew.1.symm
    · exact ht.via
  · rw [f6]
    exact captured_via ht.evidence _

theorem Tracks.addChunk {cand : HybridCandidate} (ht : Tracks hs cand) (hok : HitOk h) (hp : h.is_doc_path = false)
    (hdoc : h.doc_id = cand.doc_id) : Tracks (hs ++ [h]) (addChunkHit cand h) := by
  obtain ⟨f1, f2, f3, f4, f5, f6, f7⟩ := addChunkHit_fields cand h
  have hc : chunkPart (hs ++ [h]) = chunkPart hs ++ [h] := by rw [chunkPart_snoc, if_neg (by simp [hp])]
  have hd : docPart (hs ++ [h]) = docPart hs := by rw [docPart_snoc, if_neg (by simp [hp])]
  have hchunk := congrArg Prod.fst f7
  have hbest := congrArg Prod.snd f7
  dsimp only at hchunk hbest
  obtain ⟨r, hr, hrbest, hrmax, hrbare⟩ := ht.shown
  have hempty : (chunkPart hs ++ [h]).isEmpty = false := by simp
  constructor
  · rw [f1]
    exact List.forall_mem_append.mpr ⟨ht.doc, List.forall_mem_singleton.mpr hdoc⟩
  · rw [f2, hc, hempty]
    rfl
  · rw [f3, hd, ht.docs]
  · rw [f5, hc, best_snoc hok.pos ht.bestChunk, hempty]
    rfl
  · rw [f4, hd, ht.bestDoc]
  · have hpool : pool (hs ++ [h]) = chunkPart hs ++ [h] := by
      rw [pool, hc, hempty]
      rfl
    rw [hpool, hchunk, hbest, ht.via]
    split
    · rename_i hnew
      refine ⟨h, by simp, rfl, topped (fun x hx => ?_) le_rfl, rfl⟩
      -- an earlier chunk is there, so the new one ranks better
      have hsome : ¬ (chunkPart hs).isEmpty = true := by
        intro hnil
        rw [List.isEmpty_iff.mp hnil] at hx
        cases hx
      rw [eq_false_of_ne_true hsome, Bool.or_false, decide_eq_true_eq] at hnew
      rw [pool, if_neg hsome] at hrmax
      exact (hrmax x hx).trans (hrbest ▸ hnew.le)
    · rename_i hkeep
      simp only [Bool.or_eq_true, decide_eq_true_eq, not_or] at hkeep
      obtain ⟨hle, hsome⟩ := hkeep
      rw [pool, if_neg hsome] at hr hrmax
      exact ⟨r, List.mem_append_left _ hr, hrbest, topped hrmax (hrbest ▸ not_lt.mp hle), hrbare⟩
  · rw [hchunk, hc, hempty]
    split
    · show IsDocEvidencePath (MetadataValue (cand.doc_evidence_metadata.foldl overlay h.shown.metadata) "via_path") = false
      rw [MetadataValue, applied_via ht.evidence, ← hp, ← shown_via hok]
      rfl
    · rename_i hkeep
      rw [Bool.or_eq_true, not_or] at hkeep
      simpa using hkeep.2
  · rw [f6]
    exact ht.evidence

theorem Tracks.add {cand : HybridCandidate} (ht : Tracks hs cand) (hok : HitOk h) (hdoc : h.doc_id = cand.doc_id) :
    Tracks (hs ++ [h]) (addHit cand h) := by
  unfold addHit
  by_cases hp : h.is_doc_path = true
  · rw [if_pos hp]
    exact ht.addDoc hok hp hdoc
  · rw [if_neg hp]
    exact ht.addChunk hok (eq_false_of_ne_true hp) hdoc

theorem tracks_entry {i : Nat} {cand : HybridCandidate} {d : String} (hok : ∀ h ∈ hs, HitOk h)
    (hdoc : ∀ h ∈ hs, h.doc_id = d) (h : tallyEntry (fun _ => newCandidate) addHit i hs = some cand) :
    Tracks hs cand ∧ cand.doc_id = d := by
  have hrun : ∀ (more pre : List Hit) (cand : HybridCandidate), Tracks pre cand → cand.doc_id = d →
      (∀ h ∈ more, HitOk h) → (∀ h ∈ more, h.doc_id = d) →
      Tracks (pre ++ more) (more.foldl addHit cand) ∧ (more.foldl addHit cand).doc_id = d := by
    intro more
    induction more with
    | nil => exact fun pre cand ht hd _ _ => ⟨by simpa using ht, hd⟩
    | cons x more ih =>
      intro pre cand ht hd hmore hmdoc
      obtain ⟨hx, hmore⟩ := List.forall_mem_cons.mp hmore
      obtain ⟨hxd, hmdoc⟩ := List.forall_mem_cons.mp hmdoc
      have hnext := ht.add hx (hxd.trans hd.symm)
      have hid : (addHit cand x).doc_id = d := by
        rw [← hnext.doc x (by simp), hxd]
      have := ih (pre ++ [x]) (addHit cand x) hnext hid hmore hmdoc
      rwa [List.append_assoc, List.singleton_append] at this
  cases hs with
  | nil => cases h
  | cons x hs =>
    cases h
    obtain ⟨hx, hrest⟩ := List.forall_mem_cons.mp hok
    obtain ⟨hxd, hdrest⟩ := List.forall_mem_cons.mp hdoc
    have hnew := tracks_new hx
    have hid : (newCandidate x).doc_id = d := by rw [← hnew.doc x (by simp), hxd]
    exact hrun hs [x] (newCandidate x) hnew hid hrest hdrest

/-! ## The fused list -/

section
variable (fmt : Rat → String) (chunk_chunks doc_chunks : List RankedChunk)

def docIds : List String := (((chunk_chunks ++ doc_chunks).map HybridDocId).filter (· ≠ "")).eraseDups

def hitsOf (doc_id : String) : List Hit := share Hit.doc_id doc_id (hits fmt chunk_chunks doc_chunks)

/-- The best of the chunk path plus the best of the document path. -/
def docScore (doc_id : String) : Rat :=
  bestOf (chunkPart (hitsOf fmt chunk_chunks doc_chunks doc_id)) + bestOf (docPart (hitsOf fmt chunk_chunks doc_chunks doc_id))

def docOf (rc : RankedChunk) : String := MetadataValue rc.metadata "doc_id"

/-- A hit stands for the chunk at a rank of one of the lists, on the path that the list and the metadata say. -/
def Sighted (h : Hit) : Prop :=
  ∃ (rank : Nat) (rc : RankedChunk),
    (chunk_chunks[rank]? = some rc ∧ h.source_path = "chunk" ∨
      doc_chunks[rank]? = some rc ∧ h.source_path = HybridPath rc "doc") ∧
    bare h.rc = bare rc ∧ h.doc_id = HybridDocId rc ∧ h.contribution = 1 / ((kHybridRrfK : Rat) + (rank : Rat))

/-- What a fusion returns: the `top_k` best documents, at least one, each once and shown by the best hit of its pool. -/
structure Fused (top_k : Int) (out : List RankedChunk) : Prop where
  length : out.length = Nat.min (Nat.max 1 top_k.toNat) (docIds chunk_chunks doc_chunks).length
  once : (out.map docOf).Nodup
  known : ∀ rc ∈ out, docOf rc ∈ docIds chunk_chunks doc_chunks
  ordered : out.Pairwise fun a b => b.score ≤ a.score
  score : ∀ rc ∈ out, rc.score = docScore fmt chunk_chunks doc_chunks (docOf rc)
  shown : ∀ rc ∈ out, ∃ h ∈ pool (hitsOf fmt chunk_chunks doc_chunks (docOf rc)),
    (∀ h' ∈ pool (hitsOf fmt chunk_chunks doc_chunks (docOf rc)), h'.contribution ≤ h.contribution) ∧ bare rc = bare h.rc
  best : ∀ doc_id ∈ docIds chunk_chunks doc_chunks, doc_id ∉ out.map docOf →
    ∀ rc ∈ out, docScore fmt chunk_chunks doc_chunks doc_id ≤ rc.score

end

variable {fmt : Rat → String} {chunk_chunks doc_chunks : List RankedChunk}

theorem hits_ok : ∀ h ∈ hits fmt chunk_chunks doc_chunks, HitOk h := by
  intro h hh
  rcases List.mem_append.mp hh with hh | hh
  · obtain ⟨e, -, hread⟩ := List.mem_filterMap.mp hh
    exact (readHit_spec hread).1
  · obtain ⟨e, -, hread⟩ := List.mem_filterMap.mp hh
    exact (readHit_spec hread).1

theorem hits_sighted : ∀ h ∈ hits fmt chunk_chunks doc_chunks, Sighted chunk_chunks doc_chunks h := by
  intro h hh
  rcases List.mem_append.mp hh with hh | hh
  · obtain ⟨e, he, hread⟩ := List.mem_filterMap.mp hh
    obtain ⟨-, hbare, hdoc, hpath, hcontribution⟩ := readHit_spec hread
    exact ⟨e.2, e.1, .inl ⟨List.mem_zipIdx_iff_getElem?.mp he, hpath⟩, hbare, hdoc, hcontribution⟩
  · obtain ⟨e, he, hread⟩ := List.mem_filterMap.mp hh
    obtain ⟨-, hbare, hdoc, hpath, hcontribution⟩ := readHit_spec hread
    exact ⟨e.2, e.1, .inr ⟨List.mem_zipIdx_iff_getElem?.mp he, hpath⟩, hbare, hdoc, hcontribution⟩

theorem readHits_docs (fmt : Rat → String) (path : String) (source : List RankedChunk) (n : Nat) :
    ((source.zipIdx n).filterMap (readHit fmt path)).map Hit.doc_id = (source.map HybridDocId).filter (· ≠ "") := by
  induction source generalizing n with
  | nil => rfl
  | cons rc source ih =>
    rw [List.zipIdx_cons, List.map_cons]
    cases hread : readHit fmt path (rc, n) with
    | none =>
      have hempty : HybridDocId rc = "" := by
        by_contra hne
        unfold readHit at hread
        rw [if_neg hne] at hread
        cases hread
      rw [List.filterMap_cons_none hread, ih, List.filter_cons_of_neg (by simp [hempty])]
    | some h =>
      obtain ⟨hok, -, hdoc, -⟩ := readHit_spec hread
      have hne : HybridDocId rc ≠ "" := hdoc ▸ hok.named
      rw [List.filterMap_cons_some hread, List.map_cons, ih, List.filter_cons_of_pos (by simpa using hne), hdoc]

theorem hits_docs : (hits fmt chunk_chunks doc_chunks).map Hit.doc_id =
    ((chunk_chunks ++ doc_chunks).map HybridDocId).filter (· ≠ "") := by
  rw [hits, List.map_append, readHits_docs, readHits_docs, List.map_append, List.filter_append]

theorem addPath_eq (fmt : Rat → String) (cands : Candidates) (source : List RankedChunk) (path : String) :
    addPath fmt cands source path =
      (source.zipIdx.filterMap (readHit fmt path)).foldl (tallyStep Hit.doc_id (fun _ => newCandidate) addHit) cands := by
  rw [addPath, List.foldl_filterMap]
  congr 1
  funext cands e
  cases readHit fmt path e <;> rfl

theorem candidates_eq : candidates fmt chunk_chunks doc_chunks =
    tally Hit.doc_id (fun _ => newCandidate) addHit (hits fmt chunk_chunks doc_chunks) := by
  rw [candidates, addPath_eq, addPath_eq, tally, hits, List.foldl_append]

theorem candidates_keys : (candidates fmt chunk_chunks doc_chunks).map Prod.fst = docIds chunk_chunks doc_chunks := by
  rw [candidates_eq, tally_keys, hits_docs, docIds]

theorem candidate_tracks {e : String × HybridCandidate} (he : e ∈ candidates fmt chunk_chunks doc_chunks) :
    Tracks (hitsOf fmt chunk_chunks doc_chunks e.1) e.2 ∧ e.2.doc_id = e.1 := by
  rw [candidates_eq] at he
  obtain ⟨i, hi⟩ := List.mem_iff_getElem?.mp he
  exact tracks_entry (fun h hh => hits_ok h (List.mem_of_mem_filter hh))
    (fun h hh => by simpa using (List.mem_filter.mp hh).2) (tally_value _ _ _ hi)

theorem Tracks.fused {cand : HybridCandidate} (ht : Tracks hs cand) :
    (withFusedScore cand).fused_score = bestOf (chunkPart hs) + bestOf (docPart hs) := by
  have hpart : ∀ (best : Rat) (found : Bool) (part : List Hit), found = (!part.isEmpty) →
      best = (if part.isEmpty then -1 else bestOf part) → (if found then best else 0) = bestOf part := by
    rintro best _ part rfl rfl
    cases part with
    | nil => rfl
    | cons h part => rfl
  show _ + _ = _
  rw [hpart _ _ _ ht.chunks ht.bestChunk, hpart _ _ _ ht.docs ht.bestDoc]

/-! ### The order of the candidates -/

theorem not_candBefore {a b : HybridCandidate} : (!candBefore b a) = true ↔
    b.fused_score < a.fused_score ∨ b.fused_score = a.fused_score ∧
      (b.has_chunk = false ∧ a.has_chunk = true ∨
        b.has_chunk = a.has_chunk ∧ (a.has_chunk = true → b.best_chunk_score ≤ a.best_chunk_score)) := by
  unfold candBefore
  by_cases hf : b.fused_score = a.fused_score
  · rw [if_neg (not_not.mpr hf)]
    by_cases hc : b.has_chunk = a.has_chunk
    · rw [if_neg (not_not.mpr hc)]
      cases ha : a.has_chunk <;> simp_all
    · rw [if_pos hc]
      cases ha : a.has_chunk <;> cases hb : b.has_chunk <;> simp_all
  · rw [if_pos hf]
    simp only [Bool.not_eq_true', decide_eq_false_iff_not, not_lt, hf, false_and, or_false]
    exact ⟨fun h => lt_of_le_of_ne h hf, le_of_lt⟩

theorem candBefore_trans (a b c : HybridCandidate) (h1 : (!candBefore b a) = true) (h2 : (!candBefore c b) = true) :
    (!candBefore c a) = true := by
  rw [not_candBefore] at h1 h2 ⊢
  rcases h1 with h1 | ⟨h1, h1'⟩
  · rcases h2 with h2 | ⟨h2, -⟩
    · exact .inl (h2.trans h1)
    · exact .inl (h2 ▸ h1)
  · rcases h2 with h2 | ⟨h2, h2'⟩
    · exact .inl (h1 ▸ h2)
    · refine .inr ⟨h2.trans h1, ?_⟩
      rcases h1' with ⟨hb, ha⟩ | ⟨hba, hab⟩
      · rcases h2' with ⟨-, hb'⟩ | ⟨hcb, -⟩
        · rw [hb] at hb'
          cases hb'
        · exact .inl ⟨hcb.trans hb, ha⟩
      · rcases h2' with ⟨hc, hb⟩ | ⟨hcb, hbc⟩
        · exact .inl ⟨hc, hba ▸ hb⟩
        · exact .inr ⟨hcb.trans hba, fun ha => (hbc (hba.trans ha)).trans (hab ha)⟩

theorem candBefore_total (a b : HybridCandidate) : (!candBefore b a || !candBefore a b) = true := by
  rw [Bool.or_eq_true, not_candBefore, not_candBefore]
  rcases lt_trichotomy b.fused_score a.fused_score with h | h | h
  · exact .inl (.inl h)
  · rcases le_total b.best_chunk_score a.best_chunk_score with hs | hs
    all_goals
      cases ha : a.has_chunk <;> cases hb : b.has_chunk <;> simp_all
  · exact .inr (.inl h)

theorem fused_of_not_candBefore {a b : HybridCandidate} (h : (!candBefore b a) = true) :
    b.fused_score ≤ a.fused_score := by
  rcases not_candBefore.mp h with h | ⟨h, -⟩
  · exact h.le
  · exact h.le

/-! ### What a candidate is returned as -/

theorem finish_score (fmt : Rat → String) (cand : HybridCandidate) : (finish fmt cand).score = cand.fused_score := rfl

theorem bare_finish (fmt : Rat → String) (cand : HybridCandidate) : bare (finish fmt cand) = bare cand.chunk := rfl

theorem docOf_finish (fmt : Rat → String) (cand : HybridCandidate) : docOf (finish fmt cand) = cand.doc_id := by
  obtain ⟨chunk, doc_id, fused, best, bestChunk, bestDoc, s1, s2, s3, s4, has_chunk, has_doc, paths, evidence⟩ := cand
  unfold docOf MetadataValue finish ApplyDocEvidenceMetadata
  cases has_chunk <;> cases has_doc <;> cases paths <;> simp [find_assign]

/-- The fusion of any lists: the best documents, each by its best chunk if it has one. -/
theorem fuseHybrid_fused (fmt : Rat → String) (chunk_chunks doc_chunks : List RankedChunk) (top_k : Int) :
    Fused fmt chunk_chunks doc_chunks top_k (FuseHybridChunksByDocId fmt chunk_chunks doc_chunks top_k) ∧
      ∀ h ∈ hits fmt chunk_chunks doc_chunks, Sighted chunk_chunks doc_chunks h := by
  refine ⟨?_, hits_sighted⟩
  obtain ⟨cands, hcands⟩ : ∃ cands, cands = (candidates fmt chunk_chunks doc_chunks).map fun e => withFusedScore e.2 :=
    ⟨_, rfl⟩
  obtain ⟨sorted, hsorted⟩ : ∃ sorted, sorted = cands.mergeSort fun a b => !candBefore b a := ⟨_, rfl⟩
  obtain ⟨k, hk⟩ : ∃ k, k = if top_k < 1 then 1 else top_k.toNat := ⟨_, rfl⟩
  have hout : FuseHybridChunksByDocId fmt chunk_chunks doc_chunks top_k = (sorted.take k).map (finish fmt) := by
    rw [hsorted, hcands, hk]
    rfl
  have hperm : sorted.Perm cands := hsorted ▸ List.mergeSort_perm _ _
  have htracks : ∀ c ∈ sorted, c.fused_score = docScore fmt chunk_chunks doc_chunks c.doc_id ∧
      ∃ h ∈ pool (hitsOf fmt chunk_chunks doc_chunks c.doc_id),
        (∀ h' ∈ pool (hitsOf fmt chunk_chunks doc_chunks c.doc_id), h'.contribution ≤ h.contribution) ∧
          bare c.chunk = bare h.rc := by
    intro c hc
    rw [hperm.mem_iff, hcands] at hc
    obtain ⟨e, he, rfl⟩ := List.mem_map.mp hc
    obtain ⟨ht, hid⟩ := candidate_tracks he
    obtain ⟨h, hh, -, hmax, hbare⟩ := ht.shown
    have hid' : (withFusedScore e.2).doc_id = e.1 := hid
    rw [hid']
    exact ⟨ht.fused, h, hh, hmax, hbare⟩
  have hids : (sorted.map (·.doc_id)).Perm (docIds chunk_chunks doc_chunks) := by
    have hmap : cands.map (·.doc_id) = docIds chunk_chunks doc_chunks := by
      have hkeys : (candidates fmt chunk_chunks doc_chunks).map Prod.fst = docIds chunk_chunks doc_chunks :=
        candidates_keys
      rw [← hkeys, hcands, List.map_map]
      exact List.map_congr_left fun e he => (candidate_tracks he).2
    exact hmap ▸ hperm.map _
  have hdocs : (sorted.take k).map (docOf ∘ finish fmt) = (sorted.take k).map (·.doc_id) :=
    List.map_congr_left fun c _ => docOf_finish fmt c
  have hnd : (sorted.map (·.doc_id)).Nodup := hids.nodup_iff.mpr (nodup_eraseDups _)
  have hord : sorted.Pairwise fun a b => b.fused_score ≤ a.fused_score := by
    rw [hsorted]
    exact (List.pairwise_mergeSort candBefore_trans candBefore_total _).imp fused_of_not_candBefore
  have hmem : ∀ rc ∈ FuseHybridChunksByDocId fmt chunk_chunks doc_chunks top_k,
      ∃ c ∈ sorted, rc = finish fmt c := by
    intro rc hrc
    rw [hout] at hrc
    obtain ⟨c, hc, rfl⟩ := List.mem_map.mp hrc
    exact ⟨c, List.mem_of_mem_take hc, rfl⟩
  constructor
  · rw [hout, List.length_map, List.length_take, hk, ← hids.length_eq, List.length_map]
    congr 1
    show _ = max 1 top_k.toNat
    split <;> omega
  · rw [hout, List.map_map, hdocs]
    exact hnd.sublist ((List.take_sublist _ _).map _)
  · intro rc hrc
    obtain ⟨c, hc, rfl⟩ := hmem rc hrc
    rw [docOf_finish]
    exact hids.mem_iff.mp (List.mem_map_of_mem hc)
  · rw [hout]
    exact List.pairwise_map.mpr (hord.sublist (List.take_sublist _ _))
  · intro rc hrc
    obtain ⟨c, hc, rfl⟩ := hmem rc hrc
    rw [docOf_finish, finish_score, (htracks c hc).1]
  · intro rc hrc
    obtain ⟨c, hc, rfl⟩ := hmem rc hrc
    obtain ⟨h, hh, hmax, hbare⟩ := (htracks c hc).2
    rw [docOf_finish, bare_finish]
    exact ⟨h, hh, hmax, hbare⟩
  · intro doc_id hdoc hnot rc hrc
    obtain ⟨c', hc', rfl⟩ := List.mem_map.mp (hids.mem_iff.mpr hdoc)
    rw [hout, List.map_map, hdocs] at hnot
    have hdrop : c' ∈ sorted.drop k := by
      rw [← List.take_append_drop k sorted] at hc'
      rcases List.mem_append.mp hc' with htake | hdrop
      · exact absurd (List.mem_map_of_mem htake) hnot
      · exact hdrop
    rw [hout] at hrc
    obtain ⟨c, hc, rfl⟩ := List.mem_map.mp hrc
    rw [← List.take_append_drop k sorted] at hord
    rw [finish_score, ← (htracks c' (List.mem_of_mem_drop hdrop)).1]
    exact (List.pairwise_append.mp hord).2.2 c hc c' hdrop

end Cortrix.Query.HybridFusion
