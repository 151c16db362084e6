import Cortrix.Query.DocDiscovery

/-!
# The retrieval of chunks

`ExecuteChunkRetrieval` on the hits of its three searches: the votes for chunks, the filter of hidden documents, the
fusion of five paths and the cut. No reranker is asked.
-/

namespace Cortrix.Query
open Lib Metadata PostFilter Store.Documents

namespace ChunkRetrieval

/-- What the deployment brings: its hash of child ids, the text of a JSON value, and the guard against deep ones. -/
structure Env where
  hashChildIdToBlockId : String → UInt64
  dump : Json → String
  exceedsMaxDepth : Metadata → Bool

structure ChunkStore where
  rows : Rows
  /-- `contextual_vec_labels`: the child of a label. -/
  labels : List (UInt64 × String) := []
  blocksKeyed : Keyed CortrixBlock.blockId rows.blocks
  docsNamed : ∀ d ∈ rows.docs, d.docId ≠ ""
  /-- `idx_blocks_child_id`. -/
  childUnique : ∀ b ∈ rows.blocks, ∀ b' ∈ rows.blocks, b.childId = b'.childId → b.childId ≠ "" → b = b'

structure ChunkRow where
  contentText : String
  metadata : Option Metadata
  docId : String
  parentId : String

structure SparseHit where
  childId : String
  score : Rat

structure QueryContext where
  routingPath : String := "complex"
  explain : Bool := false
  topK : Int := 10

/-! ## Votes -/

inductive VectorHitPath
  | dense (childId : String)
  | hype (childId : String)
  | dropped

def classifyVectorHit (b : CortrixBlock) : VectorHitPath :=
  if b.blockType = kBlockHypeQuestion then
    match (b.metadata.bind (getKey "source_child_id")) with
    | some (.str src) => if src = "" then .dropped else .hype src
    | _ => .dropped
  else if b.childId = "" then .dropped
  else .dense b.childId

def rowOf (b : CortrixBlock) : ChunkRow := ⟨b.contentText, b.metadata, b.docId, b.parentId⟩

/-- `ResolveSourceChildBlock`: the block under the hash of the child, else the legacy row that has lost its document. -/
def resolveSourceChildBlock (env : Env) (st : ChunkStore) (childId : String) : Option ChunkRow :=
  if childId = "" then none
  else
    match (st.rows.blockGet (env.hashChildIdToBlockId childId)).filter fun b => b.childId == childId with
    | some b => some (rowOf b)
    | none =>
      (lookup CortrixBlock.childId childId st.rows.blocks).map fun b => ⟨b.contentText, none, "", b.parentId⟩

inductive Vote
  | dense (childId : String) (score : Rat) (row : ChunkRow)
  | hype (childId : String) (score : Rat)
  | contextual (childId : String) (score : Rat)
  | fts5 (childId : String) (score : Rat) (row : ChunkRow)
  | sparse (childId : String) (score : Rat)

def Vote.child : Vote → String
  | .dense c _ _ => c
  | .hype c _ => c
  | .contextual c _ => c
  | .fts5 c _ _ => c
  | .sparse c _ => c

/-- The vote of a point: a chunk, a question of one, or a contextual point of one. -/
def vectorVote (st : ChunkStore) (hit : UInt64 × Rat) : Option Vote :=
  match st.rows.blockGet hit.1 with
  | some b =>
    match classifyVectorHit b with
    | .dense c => some (.dense c hit.2 (rowOf b))
    | .hype c => some (.hype c hit.2)
    | .dropped => none
  | none => (lookup Prod.fst hit.1 st.labels).map fun l => .contextual l.2 hit.2

def ftsVote (st : ChunkStore) (hit : UInt64 × Rat) : Option Vote :=
  (st.rows.blockGet hit.1).bind fun b => if b.childId = "" then none else some (.fts5 b.childId hit.2 (rowOf b))

def sparseVote (hit : SparseHit) : Vote := .sparse hit.childId hit.score

/-- The five lists, the chunks met so far and the chunks that a question has voted for. -/
structure Gathered where
  byChild : List (String × ChunkRow) := []
  hypeSeen : List String := []
  dense : List SparseHit := []
  contextualized : List SparseHit := []
  sparse : List SparseHit := []
  fts5 : List SparseHit := []
  hype : List SparseHit := []

/-- `by_child.emplace`: a chunk that is there stays. -/
def emplace (childId : String) (row : ChunkRow) (m : List (String × ChunkRow)) : List (String × ChunkRow) :=
  if (lookup Prod.fst childId m).isSome then m else m ++ [(childId, row)]

/-- `resolve_child_row`; `none` when there is no such chunk. -/
def resolveChildRow (env : Env) (st : ChunkStore) (childId : String) (m : List (String × ChunkRow)) :
    Option (List (String × ChunkRow)) :=
  if (lookup Prod.fst childId m).isSome then some m
  else (resolveSourceChildBlock env st childId).map fun row => emplace childId row m

def chunkOnlyRoute (ctx : QueryContext) : Bool := ctx.routingPath == "simple" || ctx.routingPath == "chat"

def cast (env : Env) (st : ChunkStore) (ctx : QueryContext) (g : Gathered) : Vote → Gathered
  | .dense c score row => { g with byChild := emplace c row g.byChild, dense := g.dense ++ [⟨c, score⟩] }
  | .hype c score =>
    if chunkOnlyRoute ctx || g.hypeSeen.contains c then g
    else
      match resolveChildRow env st c g.byChild with
      | some m => { g with byChild := m, hypeSeen := g.hypeSeen ++ [c], hype := g.hype ++ [⟨c, score⟩] }
      | none => { g with hypeSeen := g.hypeSeen ++ [c] }
  | .contextual c score =>
    if chunkOnlyRoute ctx then g
    else
      match resolveChildRow env st c g.byChild with
      | some m => { g with byChild := m, contextualized := g.contextualized ++ [⟨c, score⟩] }
      | none => g
  | .fts5 c score row => { g with byChild := emplace c row g.byChild, fts5 := g.fts5 ++ [⟨c, score⟩] }
  | .sparse c score =>
    match resolveChildRow env st c g.byChild with
    | some m => { g with byChild := m, sparse := g.sparse ++ [⟨c, score⟩] }
    | none => g

structure Hits where
  vector : List (UInt64 × Rat) := []
  bm25 : List (UInt64 × Rat) := []
  sparse : List SparseHit := []

/-- The votes in the order in which they are read. -/
def votes (st : ChunkStore) (hits : Hits) : List Vote :=
  hits.vector.filterMap (vectorVote st) ++ hits.bm25.filterMap (ftsVote st) ++ hits.sparse.map sparseVote

def gather (env : Env) (st : ChunkStore) (ctx : QueryContext) (hits : Hits) : Gathered :=
  (votes st hits).foldl (cast env st ctx) {}

/-! ## Hidden documents -/

def Gathered.lists (g : Gathered) : List (List SparseHit) := [g.dense, g.fts5, g.sparse, g.contextualized, g.hype]

def Gathered.docOf (g : Gathered) (childId : String) : Option String :=
  (lookup Prod.fst childId g.byChild).map fun e => e.2.docId

/-- The documents of all hits that are hidden. -/
def Gathered.gone (st : ChunkStore) (g : Gathered) : List String :=
  DocDiscovery.loadHiddenDocIds st.rows
    ((g.lists.flatten.filterMap fun h => g.docOf h.childId).filter (· != ""))

/-- The hits of hidden documents leave the lists. -/
def dropHidden (st : ChunkStore) (g : Gathered) : Gathered :=
  let drop := fun l : List SparseHit => l.filter fun h => !((g.docOf h.childId).any fun d => (g.gone st).contains d)
  { g with
    dense := drop g.dense, fts5 := drop g.fts5, sparse := drop g.sparse
    contextualized := drop g.contextualized, hype := drop g.hype }

/-! ## Fusion -/

inductive RrfPath
  | dense | contextualized | sparse | fts5 | hypeQuestion

def RrfPath.toString : RrfPath → String
  | .dense => "dense"
  | .contextualized => "contextualized"
  | .sparse => "sparse"
  | .fts5 => "fts5"
  | .hypeQuestion => "hype_question"

structure RrfFusedHit where
  childId : String
  rrfScore : Rat
  contributingPaths : List RrfPath

def kRrfKDefault : Int := 60

def Gathered.paths (g : Gathered) : List (RrfPath × List String) :=
  [(.dense, g.dense.map (·.childId)), (.contextualized, g.contextualized.map (·.childId)),
    (.sparse, g.sparse.map (·.childId)), (.fts5, g.fts5.map (·.childId)), (.hypeQuestion, g.hype.map (·.childId))]

def fuseChunk (paths : List (RrfPath × List String)) (childId : String) : RrfFusedHit where
  childId := childId
  rrfScore := paths.foldl (fun score p => score + DocDiscovery.pathScore kRrfKDefault childId p.2) 0
  contributingPaths := paths.flatMap fun p => List.replicate (p.2.count childId) p.1

def rankBefore (a b : RrfFusedHit) : Bool :=
  if a.rrfScore ≠ b.rrfScore then decide (b.rrfScore < a.rrfScore) else !decide (b.childId < a.childId)

def fuseFivePathRrf (g : Gathered) (topN : Int) : List RrfFusedHit :=
  let fused := (((g.paths.flatMap (·.2)).dedup).map (fuseChunk g.paths)).mergeSort rankBefore
  if 0 < topN then fused.take topN.toNat else fused

/-! ## Assembly -/

structure RankedChunk where
  childId : String
  chunkText : String
  parentId : String
  evidenceKind : String
  score : Rat
  rerankScore : Rat
  metadata : List (String × String)

def setText (key value : String) (m : List (String × String)) : List (String × String) := upsertRow Prod.fst (key, value) m

def flattenMetadataIntoMap (env : Env) (metadata : Option Metadata) (m : List (String × String)) :
    List (String × String) :=
  match metadata with
  | none => m
  | some j =>
    if env.exceedsMaxDepth j then m
    else j.foldl (fun m kv => setText kv.1 (match kv.2 with | .str s => s | v => env.dump v) m) m

/-- The metadata of a chunk: the paths, the document's, the block's, then its names. -/
def chunkMetadata (env : Env) (st : ChunkStore) (ctx : QueryContext) (hit : RrfFusedHit) (row : ChunkRow) :
    List (String × String) :=
  let doc := if row.docId = "" then none else st.rows.docGet row.docId
  let m₀ := if ctx.explain && !hit.contributingPaths.isEmpty then
      [("rrf_paths", ",".intercalate (hit.contributingPaths.map RrfPath.toString))]
    else []
  let m₁ := flattenMetadataIntoMap env row.metadata (flattenMetadataIntoMap env (doc.bind (·.metadata)) m₀)
  let m₂ := match doc with
    | some d => if d.sourcePath = "" then m₁ else setText "source_path" d.sourcePath m₁
    | none => m₁
  if row.docId = "" then m₂ else setText "source_doc_id" row.docId (setText "doc_id" row.docId m₂)

def assembleChunk (env : Env) (st : ChunkStore) (ctx : QueryContext) (byChild : List (String × ChunkRow))
    (hit : RrfFusedHit) : Option RankedChunk :=
  (lookup Prod.fst hit.childId byChild).map fun e =>
    ⟨hit.childId, e.2.contentText, e.2.parentId, "chunk", hit.rrfScore, hit.rrfScore,
      chunkMetadata env st ctx hit e.2⟩

def finish (env : Env) (st : ChunkStore) (ctx : QueryContext) (candidateK : Int) (g : Gathered) : List RankedChunk :=
  let ranked := (fuseFivePathRrf g candidateK).filterMap (assembleChunk env st ctx g.byChild)
  (ranked.mergeSort fun a b => b.rerankScore ≤ a.rerankScore).take (if ctx.topK < 1 then 1 else ctx.topK).toNat

structure Limits where
  candidateMultiplier : Int := 1
  maxCandidates : Int := 1

def candidateK (limits : Limits) (topK : Int) (oversample : Rat) : Int :=
  let k := if topK < 1 then 1 else topK
  let os := if 1 < oversample then oversample.ceil else 1
  max k (min (k * limits.candidateMultiplier * os) limits.maxCandidates)

/-- `ExecuteChunkRetrieval`, when the hidden documents are looked up without an error. -/
def executeChunkRetrieval (env : Env) (st : ChunkStore) (limits : Limits) (ctx : QueryContext) (oversample : Rat)
    (hits : Hits) : List RankedChunk :=
  finish env st ctx (candidateK limits ctx.topK oversample) (dropHidden st (gather env st ctx hits))

end ChunkRetrieval

end Cortrix.Query
