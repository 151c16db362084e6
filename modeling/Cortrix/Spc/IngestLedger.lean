import Cortrix.Spc.EnrichBackfillWorker

/-!
# The ledger of an ingest

The stages of a parsed document from the enricher chain on: the chain runs over every chunk, the cleaner drops some of
them, and the others are stored one by one with their columns and their row of `enrich_state`. The row says `ok` when no
member of the chain is known to have failed for the chunk. No statement fails; an id that is taken does.
-/

namespace Cortrix.Spc.IngestLedger
open Lib BackfillWorker

def kEnrichRetryFirstDelaySec : Int := 60

/-- `InferBlockType` : the type of the document's source. -/
inductive Modality
  | file | scan

def Modality.blockType : Modality → Nat
  | file => 1
  | scan => 2

def kBlockMeta : Nat := 8

structure ChildChunk where
  childId : String
  parentId : String
  childText : String
  chunkIndex : Int

/-- A chunk that the cleaner has kept, with its mark. -/
structure CleanBlock where
  child : ChildChunk
  skipIndex : Bool
  embedding : Embedding

structure MetadataBlock where
  blockId : Nat
  blockText : String
  embedding : Embedding

/-- A document after the chunker and, in `clean`, after the cleaner. -/
structure ParsedDoc where
  level : Int
  modality : Modality
  children : List ChildChunk
  parents : List (String × String)
  clean : List CleanBlock
  metaBlock : Option MetadataBlock
  /-- A child id is generated for its chunk. -/
  ids : (children.map ChildChunk.childId).Nodup
  named : ∀ c ∈ children, c.childId ≠ ""
  kept : (clean.map CleanBlock.child).Sublist children

/-- The order in which a hash map is gone through. -/
structure MapOrder (α : Type) where
  arrange : List α → List α
  perm : ∀ xs, (arrange xs).Perm xs

/-! ## The chain -/

section Chain
variable (chain : EnricherChain) (doc : ParsedDoc)

def contexts : List ChunkContext :=
  doc.children.mapIdx fun i c =>
    { chunkText := c.childText
      chunkIndex := c.chunkIndex
      prevChunkText := if i = 0 then "" else (doc.children[i - 1]?.map ChildChunk.childText).getD ""
      nextChunkText := (doc.children[i + 1]?.map ChildChunk.childText).getD "" }

/-- A parent id that occurs twice has the later text. -/
def sources : EnricherChain.Sources where
  parentTexts := doc.children.map fun c =>
    ((doc.parents.reverse.find? fun p => p.1 == c.parentId).map Prod.snd).getD ""
  childIds := doc.children.map ChildChunk.childId
  parentIds := doc.children.map ChildChunk.parentId

/-- `enrich_by_child` and its companions: the result of the chain for each chunk. -/
def outcomes : List (ChildChunk × ChunkChainResult) :=
  doc.children.zip (chain.enrichChunks (contexts doc) (sources doc) none)

def outcomeOf (childId : String) : Option (ChildChunk × ChunkChainResult) :=
  lookup (fun o => o.1.childId) childId (outcomes chain doc)

/-- The chunks the cleaner has kept, each with its result. -/
def survivors : List (CleanBlock × ChunkChainResult) :=
  doc.clean.filterMap fun b => (outcomeOf chain doc b.child.childId).map fun o => (b, o.2)

end Chain

/-! ## The write set -/

section WriteSet
variable (env : Writer) (chain : EnricherChain) (doc : ParsedDoc) (order : MapOrder (CleanBlock × ChunkChainResult))

def indexPoints (b : CleanBlock) : Bool := indexPointsExpected doc.level b.skipIndex

def labelRow (s : CleanBlock × ChunkChainResult) : Option ContextualVecLabelRow :=
  if indexPoints doc s.1 && s.2.merged.vector.isSome then
    some ⟨env.deriveContextualVecLabel s.1.child.childId, env.hashChildIdToBlockId s.1.child.childId,
      s.1.child.childId⟩
  else none

def labelRows : List ContextualVecLabelRow := (survivors chain doc).filterMap (labelRow env doc)

def childPoints (s : CleanBlock × ChunkChainResult) : List (Embedding × Nat) :=
  if indexPoints doc s.1 then
    (if s.1.embedding.isEmpty then [] else [(s.1.embedding, env.hashChildIdToBlockId s.1.child.childId)]) ++
      (s.2.merged.vector.toList.map fun v => (v, env.deriveContextualVecLabel s.1.child.childId))
  else []

/-- The questions of the kept chunks, in the order of their map. -/
def questions : List HypeQuestion :=
  (order.arrange ((survivors chain doc).filter fun s => !s.2.hypeQuestions.isEmpty)).flatMap fun s => s.2.hypeQuestions

/-- The embeddings of the questions, where hype blocks are written at all; the batch fails as a whole. -/
def hypeEmbeddings : Except String (List Embedding) :=
  if hypeBlocksExpected doc.level then embedBatch env ((questions chain doc order).map HypeQuestion.questionText)
  else .ok []

def hypeWrites : List (Block × Embedding) :=
  match hypeEmbeddings env chain doc order with
  | .ok embs => ((questions chain doc order).zip embs).mapIdx fun i p => (hypeBlock env p.1 i, p.2)
  | .error _ => []

/-- The questions of the chunk are lost with their batch. -/
def hypeDropped (s : CleanBlock × ChunkChainResult) : Option String :=
  match hypeEmbeddings env chain doc order with
  | .ok _ => none
  | .error msg => if s.2.hypeQuestions.isEmpty then none else some msg

def owedMembers (s : CleanBlock × ChunkChainResult) : List String :=
  let failed := ["f03", "f35", "f38"].filter (memberFailed s.2)
  if (hypeDropped env chain doc order s).isSome && !failed.contains "f38" then failed ++ ["f38"] else failed

/-- The first message of a step that ran, or that of the lost questions. -/
def owedError (s : CleanBlock × ChunkChainResult) : String :=
  let failed := ["f03", "f35", "f38"].filter (memberFailed s.2)
  let err := if failed.isEmpty then "" else if (lastErrorOf s.2).isEmpty then "enrichment degraded (fail-soft)"
    else lastErrorOf s.2
  match hypeDropped env chain doc order s with
  | some msg => if err.isEmpty then "F38 hype embedding failed: " ++ msg else err
  | none => err

def ledgerRow (now : Int) (s : CleanBlock × ChunkChainResult) : EnrichStateRow :=
  let owed := owedMembers env chain doc order s
  { blockId := env.hashChildIdToBlockId s.1.child.childId
    docId := env.docId
    childId := s.1.child.childId
    status := if owed.isEmpty then .ok else .pendingRetry
    failedMembers := joinCsv owed
    attempts := 0
    lastError := if owed.isEmpty then [] else (utf8 (owedError env chain doc order s).toList).take 200
    nextRetryAt := if owed.isEmpty then none else some (now + kEnrichRetryFirstDelaySec)
    updatedAt := now
    generation := 0 }

/-- The block of a chunk as it is inserted; the columns of the members come after it. -/
def childBlock (s : CleanBlock × ChunkChainResult) : Block where
  blockId := env.hashChildIdToBlockId s.1.child.childId
  docId := env.docId
  childId := s.1.child.childId
  parentId := s.1.child.parentId
  chunkIndex := s.1.child.chunkIndex
  blockType := doc.modality.blockType
  contentText := s.1.child.childText
  metadata := {
    skipIndex := s.1.skipIndex
    summary := if s.2.merged.ok && !s.2.merged.summary.isEmpty then some s.2.merged.summary else none }
  enrichedScore := none
  contextualizedText := none
  contextualizedEmbedding := none
  contextualizedStatus := 0

def metadataBlock (m : MetadataBlock) : Block where
  blockId := m.blockId
  docId := env.docId
  childId := ""
  parentId := ""
  chunkIndex := 0
  blockType := kBlockMeta
  contentText := m.blockText
  metadata := {}
  enrichedScore := none
  contextualizedText := none
  contextualizedEmbedding := none
  contextualizedStatus := 0

/-- A block to insert; that of a chunk comes with its result and its row of the ledger. -/
structure BlockWrite where
  block : Block
  enriched : Option (EnrichResult × EnrichStateRow)

def childWrite (now : Int) (s : CleanBlock × ChunkChainResult) : BlockWrite :=
  ⟨childBlock env doc s, some (s.2.merged, ledgerRow env chain doc order now s)⟩

/-- The blocks of the document: the chunks, the hype blocks, the META block. -/
def blockWrites (now : Int) : List BlockWrite :=
  (survivors chain doc).map (childWrite env chain doc order now) ++
    ((hypeWrites env chain doc order).map fun p => ⟨p.1, none⟩) ++
      doc.metaBlock.toList.map fun m => ⟨metadataBlock env m, none⟩

/-- The META block has a point at the full level only. -/
def vecPoints : List (Embedding × Nat) :=
  (survivors chain doc).flatMap (childPoints env doc) ++
    (((hypeWrites env chain doc order).filter fun p => !p.2.isEmpty).map fun p => (p.2, p.1.blockId)) ++
      ((doc.metaBlock.toList.filter fun m => decide (3 ≤ doc.level) && !m.embedding.isEmpty).map fun m =>
        (m.embedding, m.blockId))

end WriteSet

/-! ## The writes -/

/-- Every row is written, or there is no table to write to. -/
def writeContextualVecLabels (new : List ContextualVecLabelRow) (labels : Option (List ContextualVecLabelRow)) :
    Option (Option (List ContextualVecLabelRow)) :=
  match labels with
  | some ls => some (some (new.foldl (fun ls l => upsertLabel l ls) ls))
  | none => if new.isEmpty then some none else none

/-- A row that is there keeps its generation. -/
def upsertEnrichState (rows : List EnrichStateRow) (w : EnrichStateRow) : List EnrichStateRow :=
  match insertRow EnrichStateRow.blockId { w with nextRetryAt := bindRetryAt w.nextRetryAt } rows with
  | some rows' => rows'
  | none =>
    updateWhere (fun r => r.blockId == w.blockId)
      (fun r => { w with nextRetryAt := bindRetryAt w.nextRetryAt, generation := r.generation }) rows

def writeBlock (s : UnitStore × List EnrichStateRow) (w : BlockWrite) : Option (UnitStore × List EnrichStateRow) :=
  (insertRow Block.blockId w.block s.1.blocks).map fun blocks =>
    match w.enriched with
    | none => ({ s.1 with blocks }, s.2)
    | some (m, row) =>
      ({ s.1 with blocks := writeContextualized w.block.blockId m (writeEnrichment w.block.blockId m blocks) },
        upsertEnrichState s.2 row)

/-- The stages from the chain on, where the chain has a member that is available. -/
def processParsed (env : Writer) (chain : EnricherChain) (order : MapOrder (CleanBlock × ChunkChainResult)) (now : Int)
    (doc : ParsedDoc) (st : UnitStore) (rows : List EnrichStateRow) : Option (UnitStore × List EnrichStateRow) :=
  if !chain.anyAvailable then none
  else
    (writeContextualVecLabels (labelRows env chain doc) st.labels).bind fun labels =>
      (doc.parents.foldlM (fun ps p => insertRow Prod.fst p ps) st.parents).bind fun parents =>
        (blockWrites env chain doc order now).foldlM writeBlock
          ({ st with labels, parents, points := st.points ++ vecPoints env chain doc order }, rows)

end Cortrix.Spc.IngestLedger
