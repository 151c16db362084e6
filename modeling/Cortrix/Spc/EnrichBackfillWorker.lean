import Cortrix.Lib.Grouping
import Cortrix.Spc.EnrichAudit

/-!
# The backfill worker

One delivery for a document: its pending rows are read, classified, charged, sent to the chain in groups of one set of
owed members, and what came back is written and the rows flipped. The pieces are functions of what each reads;
`processTask` puts them together with nothing in between and no statement failing. A failure that the worker goes on
after is an argument of the piece it hits.
-/

namespace Cortrix.Spc.BackfillWorker
open Lib

def splitCsv (csv : String) : List String :=
  ((csv.toList.splitOn ',').filter fun tok => !tok.isEmpty).map String.ofList

def kMaxAttempts : Int := kEnrichMaxAttempts

def nextRetryDelaySec (attempts : Int) : Int := [60, 300, 900, 3600, 21600].getD (min attempts.toNat 4) 21600

/-! ## Classification -/

def childrenOf (docId : String) (blocks : List Block) : List Block :=
  (blocks.filter fun b => b.docId == docId && b.childId != "").insertionSort fun b b' => b.chunkIndex ≤ b'.chunkIndex

/-- A pending row whose chunk exists: its block and position, whether the ingest indexes the chunk, the members the chain
is asked for and the stored vector that spares it `f35`. -/
structure Work where
  row : EnrichStateRow
  block : Block
  pos : Nat
  labelExpected : Bool
  members : List String
  stored : Option Embedding
  deriving DecidableEq

namespace Work

/-- The chain has to be called. -/
def isProvider (w : Work) : Bool := !w.members.isEmpty

/-- Only the index label is missing. -/
def isLabelOnly (w : Work) : Bool := w.members.isEmpty && w.stored.isSome && w.labelExpected

/-- Nothing the ingest would have written is missing. -/
def isSettled (w : Work) : Bool := !w.isProvider && !w.isLabelOnly

end Work

/-- The members a row owes; hype blocks are not owed below the full level. -/
def owedBy (docLevel : Int) (row : EnrichStateRow) : List String :=
  let members := if row.failedMembers.isEmpty then ["f03", "f35", "f38"] else splitCsv row.failedMembers
  if hypeBlocksExpected docLevel then members else members.filter fun t => t != "f38"

/-- `none` : the chunk of the row is gone. -/
def classify (docLevel : Int) (children blocks : List Block) (row : EnrichStateRow) : Option Work :=
  (children.zipIdx.reverse.find? fun p => p.1.childId == row.childId).map fun p =>
    let members := owedBy docLevel row
    let stored := if members.contains "f35" then storedVector row.blockId blocks else none
    { row
      block := p.1
      pos := p.2
      labelExpected := indexPointsExpected docLevel p.1.metadata.skipIndex
      members := if stored.isSome then members.erase "f35" else members
      stored }

def classifyAll (docId : String) (st : UnitStore) (pending : List EnrichStateRow) :
    List (EnrichStateRow × Option Work) :=
  let children := childrenOf docId st.blocks
  pending.map fun row => (row, classify (docLevelOf st.docs docId) children st.blocks row)

def works (classified : List (EnrichStateRow × Option Work)) : List Work := classified.filterMap Prod.snd

/-- The rows charged up to the cap: those the chain is called for, and those whose chunk is gone. -/
def providerIds (classified : List (EnrichStateRow × Option Work)) : List Nat :=
  (classified.filter fun c => c.2.all Work.isProvider).map fun c => c.1.blockId

def labelOnlyIds (classified : List (EnrichStateRow × Option Work)) : List Nat :=
  ((works classified).filter Work.isLabelOnly).map fun w => w.row.blockId

/-- The row written for one that owes nothing; its attempts are as they were read. -/
def settledRow (row : EnrichStateRow) (now : Int) : EnrichStateRow :=
  { row with status := .ok, failedMembers := "", lastError := [], nextRetryAt := none, updatedAt := now }

/-! ## The chain -/

structure Repair where
  row : EnrichStateRow
  block : Block
  merged : EnrichResult := {}
  hype : List HypeQuestion := []
  owedBefore : List String := []
  stillOwed : List String := []
  lastError : String := ""
  storedCtx : Option Embedding := none
  ctxLabelOnly : Bool := false
  ctxColumnsPresent : Bool := false
  labelExpected : Bool := true
  /-- The label row of a point added in this delivery. -/
  writeLabel : Option ContextualVecLabelRow := none

namespace Repair

def owes (r : Repair) (tok : String) : Bool := r.owedBefore.contains tok && !r.stillOwed.contains tok

/-- The member stays owed; the first message is kept. -/
def keepOwed (r : Repair) (tok msg : String) : Repair :=
  { r with stillOwed := r.stillOwed ++ [tok], lastError := if r.lastError.isEmpty then msg else r.lastError }

def oweAgain (r : Repair) (tok msg : String) : Repair :=
  { r with
    stillOwed := if r.stillOwed.contains tok then r.stillOwed else r.stillOwed ++ [tok]
    lastError := if r.lastError.isEmpty then msg else r.lastError }

end Repair

/-- The rows of the provider work by the members they owe, in the order of the members. -/
def groups (ws : List Work) : List (Bucket Work) :=
  (Bucket.buckets (fun w => some (joinCsv w.members)) (ws.filter Work.isProvider)).insertionSort
    fun g g' => joinCsv g.first.members ≤ joinCsv g'.first.members

def contextOf (children : List Block) (w : Work) : ChunkContext where
  chunkText := w.block.contentText
  chunkIndex := w.block.chunkIndex
  prevChunkText := if 0 < w.pos then (children[w.pos - 1]?.map Block.contentText).getD "" else ""
  nextChunkText := (children[w.pos + 1]?.map Block.contentText).getD ""

def parentTextOf (parents : List (String × String)) (parentId : String) : String :=
  if parentId.isEmpty then "" else ((parents.find? fun p => p.1 == parentId).map Prod.snd).getD ""

def sourcesOf (parents : List (String × String)) (ws : List Work) : EnricherChain.Sources where
  parentTexts := ws.map fun w => parentTextOf parents w.block.parentId
  childIds := ws.map fun w => w.block.childId
  parentIds := ws.map fun w => w.block.parentId

/-- The outcome of a member by the steps of the chain; `f35` also fails softly, by its status. -/
def memberFailed (res : ChunkChainResult) (tok : String) : Bool :=
  (res.steps.any fun s => !s.skipped && s.status != 0 && chainMemberToken s.name == tok) ||
    (tok == "f35" && res.merged.contextualizedStatus == 2)

def lastErrorOf (res : ChunkChainResult) : String :=
  (((res.steps.filter fun s => !s.skipped).map EnricherStepOutcome.errorCode).find? fun e => !e.isEmpty).getD ""

def chainRepair (membersCsv : String) (w : Work) (res : ChunkChainResult) : Repair where
  row := w.row
  block := w.block
  merged := res.merged
  hype := res.hypeQuestions
  owedBefore := splitCsv membersCsv
  stillOwed := (splitCsv membersCsv).filter (memberFailed res)
  lastError := lastErrorOf res
  storedCtx := w.stored
  ctxLabelOnly := w.stored.isSome && w.labelExpected
  ctxColumnsPresent := w.stored.isSome
  labelExpected := w.labelExpected

def labelOnlyRepair (w : Work) : Repair where
  row := w.row
  block := w.block
  storedCtx := w.stored
  ctxLabelOnly := true
  ctxColumnsPresent := true
  labelExpected := w.labelExpected

/-- One call of the chain, for the rows of a group. -/
def callChain (chain : EnricherChain) (children : List Block) (parents : List (String × String)) (g : Bucket Work) :
    List Repair :=
  let csv := joinCsv g.first.members
  List.zipWith (chainRepair csv) g.all
    (chain.enrichChunks (g.all.map (contextOf children)) (sourcesOf parents g.all) (some (splitCsv csv)))

/-! ## The write set -/

/-- What `assemble` reads beside the row: the index, the embedder and the ids of new rows. -/
structure Writer where
  docId : String
  hashChildIdToBlockId : String → Nat
  indexDim : Nat
  embed : String → Except String Embedding
  /-- The id generated for the new row of a number. -/
  generateUlid : Nat → String

def Writer.deriveContextualVecLabel (env : Writer) (childId : String) : Nat := env.hashChildIdToBlockId (childId ++ ":ctx")

structure WriteSet where
  blocks : List Block := []
  points : List (Embedding × Nat) := []

def hasLabel (labels : Option (List ContextualVecLabelRow)) (label : Nat) : Bool :=
  labels.any fun ls => ls.any fun l => l.label == label

/-- The vector `v` enters the index under the label of the chunk, which is still to be written. -/
def addPoint (env : Writer) (v : Embedding) (r : Repair) (ws : WriteSet) : Repair × WriteSet :=
  let label := env.deriveContextualVecLabel r.block.childId
  ({ r with writeLabel := some ⟨label, r.block.blockId, r.block.childId⟩ }, { ws with points := ws.points ++ [(v, label)] })

def addChainPoint (env : Writer) (labels : Option (List ContextualVecLabelRow)) (r : Repair) (ws : WriteSet) :
    Repair × WriteSet :=
  match r.merged.vector with
  | some v =>
    if r.labelExpected && r.owes "f35" && !hasLabel labels (env.deriveContextualVecLabel r.block.childId) then
      addPoint env v r ws
    else (r, ws)
  | none => (r, ws)

/-- The stored vector of a row whose label is missing; one the index cannot take leaves the row owed. -/
def addStoredPoint (env : Writer) (labels : Option (List ContextualVecLabelRow)) (r : Repair) (ws : WriteSet) :
    Repair × WriteSet :=
  if r.ctxLabelOnly && r.labelExpected && !hasLabel labels (env.deriveContextualVecLabel r.block.childId) then
    let v := r.storedCtx.getD []
    if 0 < env.indexDim ∧ v.length ≠ env.indexDim then
      (r.oweAgain "f35" ("CX_ERR_ENRICH_BACKFILL_VECTOR_DIM: stored contextual vector has " ++ toString v.length ++
        " floats, index takes " ++ toString env.indexDim), ws)
    else addPoint env v r ws
  else (r, ws)

def hypeBlock (env : Writer) (q : HypeQuestion) (n : Nat) : Block where
  blockId := env.hashChildIdToBlockId (env.generateUlid n)
  docId := env.docId
  childId := ""
  parentId := ""
  chunkIndex := 0
  blockType := kBlockHypeQuestion
  contentText := q.questionText
  metadata := { sourceChildId := some q.sourceChildId }
  enrichedScore := none
  contextualizedText := none
  contextualizedEmbedding := none
  contextualizedStatus := 0

/-- `EmbedBatch` : the texts one by one, up to the first that fails. -/
def embedBatch (env : Writer) (texts : List String) : Except String (List Embedding) := texts.mapM env.embed

def addHypeBlocks (env : Writer) (hypeExpected : Bool) (existingHype : List String) (r : Repair) (ws : WriteSet) :
    Repair × WriteSet :=
  if hypeExpected && r.owes "f38" && !r.hype.isEmpty && !existingHype.contains r.block.childId then
    match embedBatch env (r.hype.map HypeQuestion.questionText) with
    | .error msg => (r.keepOwed "f38" ("F38 hype embedding failed: " ++ msg), ws)
    | .ok embs =>
      let new := (r.hype.zip embs).mapIdx fun i p => (hypeBlock env p.1 (ws.blocks.length + i), p.2)
      (r, { blocks := ws.blocks ++ new.map Prod.fst
            points := ws.points ++ (new.filter fun p => !p.2.isEmpty).map fun p => (p.2, p.1.blockId) })
  else (r, ws)

def assembleOne (env : Writer) (labels : Option (List ContextualVecLabelRow)) (hypeExpected : Bool)
    (existingHype : List String) (r : Repair) (ws : WriteSet) : Repair × WriteSet :=
  let p := addChainPoint env labels r ws
  let p := addStoredPoint env labels p.1 p.2
  addHypeBlocks env hypeExpected existingHype p.1 p.2

/-- The repairs one after the other, with the write set they give. -/
def assemble (env : Writer) (labels : Option (List ContextualVecLabelRow)) (hypeExpected : Bool)
    (existingHype : List String) : List Repair → WriteSet → List Repair × WriteSet
  | [], ws => ([], ws)
  | r :: rs, ws =>
    let p := assembleOne env labels hypeExpected existingHype r ws
    let q := assemble env labels hypeExpected existingHype rs p.2
    (p.1 :: q.1, q.2)

/-- The new blocks inserted one by one; an id that is taken fails the delivery. -/
def insertBlocks : List Block → List Block → Option (List Block)
  | [], blocks => some blocks
  | b :: bs, blocks => (insertRow Block.blockId b blocks).bind (insertBlocks bs)

/-! ## The columns and labels -/

def blockHasEnrichedScore (blockId : Nat) (blocks : List Block) : Bool :=
  blocks.any fun b => b.blockId == blockId && b.enrichedScore.isSome

/-- A result of no enricher writes no score. -/
def writeEnrichment (blockId : Nat) (m : EnrichResult) (blocks : List Block) : List Block :=
  if m.ok && !m.enricherName.isEmpty then
    updateWhere (fun b => b.blockId == blockId) (fun b => { b with enrichedScore := some m.enrichedScore }) blocks
  else blocks

def updateBlockMetadataSummary (blockId : Nat) (summary : String) (blocks : List Block) : List Block :=
  if summary.isEmpty then blocks
  else updateWhere (fun b => b.blockId == blockId)
    (fun b => { b with metadata := { b.metadata with summary := some summary } }) blocks

/-- The result has contextual output. -/
def f35Ran (m : EnrichResult) : Bool :=
  m.contextualizedStatus != 0 || m.contextualizedText.isSome || m.contextualizedEmbedding.isSome

def writeContextualized (blockId : Nat) (m : EnrichResult) (blocks : List Block) : List Block :=
  if f35Ran m then
    updateWhere (fun b => b.blockId == blockId)
      (fun b => { b with
        contextualizedText := m.contextualizedText
        contextualizedEmbedding := m.vector
        contextualizedStatus := m.contextualizedStatus }) blocks
  else blocks

/-- The row inserted, or the row of its label overwritten. -/
def upsertLabel (l : ContextualVecLabelRow) (ls : List ContextualVecLabelRow) : List ContextualVecLabelRow :=
  upsertRow ContextualVecLabelRow.label l ls

/-- The statements of one repair that fail, with their messages. -/
structure Faults where
  score : Option String := none
  columns : Option String := none
  label : Option String := none

def persistScore (fault : Option String) (r : Repair) (st : UnitStore) : Repair × UnitStore :=
  if r.owes "f03" && r.merged.ok && !blockHasEnrichedScore r.block.blockId st.blocks then
    match fault with
    | some msg => (r.keepOwed "f03" ("CX_ERR_SPC_PERSIST_FAILED[f03]: " ++ msg), st)
    | none =>
      (r, { st with
        blocks := updateBlockMetadataSummary r.block.blockId r.merged.summary
          (writeEnrichment r.block.blockId r.merged st.blocks) })
  else (r, st)

def persistColumns (fault : Option String) (r : Repair) (st : UnitStore) : Repair × UnitStore :=
  if r.owes "f35" then
    match fault with
    | some msg =>
      -- no label for columns that did not land
      ({ r.keepOwed "f35" ("CX_ERR_SPC_PERSIST_FAILED[f35]: " ++ msg) with writeLabel := none }, st)
    | none =>
      ({ r with ctxColumnsPresent := r.ctxColumnsPresent || r.merged.vector.isSome },
        { st with blocks := writeContextualized r.block.blockId r.merged st.blocks })
  else (r, st)

def noLabelTable : String :=
  "CX_ERR_CONTEXTUAL_STORE: prepare upsert contextual_vec_labels: no such table: contextual_vec_labels"

/-- The write fails as well where there is no table to write to. -/
def persistLabel (fault : Option String) (r : Repair) (st : UnitStore) : Repair × UnitStore :=
  match r.writeLabel with
  | none => (r, st)
  | some l =>
    match fault, st.labels with
    | none, some ls => (r, { st with labels := some (upsertLabel l ls) })
    | fault, _ =>
      (r.oweAgain "f35" ("CX_ERR_SPC_PERSIST_FAILED[f35]: label: " ++ fault.getD noLabelTable), st)

def persist (f : Faults) (r : Repair) (st : UnitStore) : Repair × UnitStore :=
  let p := persistScore f.score r st
  let p := persistColumns f.columns p.1 p.2
  persistLabel f.label p.1 p.2

/-- The repairs one after the other, none of their statements failing. -/
def persistAll : List Repair → UnitStore → List Repair × UnitStore
  | [], st => ([], st)
  | r :: rs, st =>
    let p := persist {} r st
    let q := persistAll rs p.2
    (p.1 :: q.1, q.2)

/-! ## The flip -/

/-- What is still owed needs no provider: the columns and the vector are in place. -/
def onlyLabelOwed (r : Repair) : Bool := r.stillOwed == ["f35"] && r.ctxColumnsPresent

def flipRow (now : Int) (r : Repair) : EnrichStateRow :=
  let row := { r.row with attempts := toInt (r.row.attempts + 1), updatedAt := now }
  if r.stillOwed.isEmpty then
    { row with status := .ok, failedMembers := "", lastError := [], nextRetryAt := none }
  else
    let row := { row with
      failedMembers := joinCsv r.stillOwed
      lastError := (utf8 r.lastError.toList).take 200 }
    if kMaxAttempts ≤ row.attempts ∧ onlyLabelOwed r = false then
      { row with status := .failedPermanent, nextRetryAt := none }
    else { row with status := .pendingRetry, nextRetryAt := some (now + nextRetryDelaySec row.attempts) }

/-! ## A delivery -/

def settleAll (now : Int) (ws : List Work) (rows : List EnrichStateRow) : List EnrichStateRow :=
  (ws.filter Work.isSettled).foldl
    (fun rows w => flipEnrichStateIfGeneration (settledRow w.row now) w.row.generation rows) rows

def flipAll (now : Int) (rs : List Repair) (rows : List EnrichStateRow) : List EnrichStateRow :=
  rs.foldl (fun rows r => flipEnrichStateIfGeneration (flipRow now r) r.row.generation rows) rows

def chargeAll (ids : List Nat) (now terminalAt : Int) (rows : List EnrichStateRow) : List EnrichStateRow :=
  chargeEnrichAttempts ids now terminalAt (ids.toChunks 400).length rows

def repairsOf (chain : EnricherChain) (docId : String) (st : UnitStore) (ws : List Work) : List Repair :=
  (groups ws).flatMap (callChain chain (childrenOf docId st.blocks) st.parents) ++
    (ws.filter Work.isLabelOnly).map labelOnlyRepair

/-- A delivery with no statement failing and nothing in between; `none` : the task fails. -/
def processTask (env : Writer) (chain : EnricherChain) (now : Int) (st : UnitStore) (rows : List EnrichStateRow) :
    Option (UnitStore × List EnrichStateRow) :=
  if !chain.anyAvailable then none
  else
    let pending := listEnrichStateForDoc env.docId rows
    if pending.isEmpty then some (st, rows)
    else
      let classified := classifyAll env.docId st pending
      let ws := works classified
      let rows := settleAll now ws rows
      let rows := chargeAll (providerIds classified) now (kMaxAttempts + 1) rows
      let rows := chargeAll (labelOnlyIds classified) now kEnrichNoTerminal rows
      let a := assemble env st.labels (hypeBlocksExpected (docLevelOf st.docs env.docId)) (hypeSources st.blocks)
        (repairsOf chain env.docId st ws) {}
      (insertBlocks a.2.blocks st.blocks).map fun blocks =>
        let p := persistAll a.1 { st with blocks, points := st.points ++ a.2.points }
        (p.2, flipAll now p.1 rows)

/-! ## Facts of the pieces -/

variable {docId : String} {docLevel : Int} {blocks : List Block} {row : EnrichStateRow} {w : Work}

theorem classify_eq_some (h : classify docLevel (childrenOf docId blocks) blocks row = some w) :
    w.row = row ∧ w.block ∈ blocks ∧ w.block.childId = row.childId ∧ row.childId ≠ "" ∧
      w.labelExpected = indexPointsExpected docLevel w.block.metadata.skipIndex ∧
      w.stored = (if (owedBy docLevel row).contains "f35" then storedVector row.blockId blocks else none) ∧
      w.members = if w.stored.isSome then (owedBy docLevel row).erase "f35" else owedBy docLevel row := by
  obtain ⟨p, hfind, rfl⟩ := Option.map_eq_some_iff.mp h
  have hmem := List.mem_of_find?_eq_some hfind
  have hchild : p.1.childId = row.childId := by simpa using List.find?_some hfind
  rw [List.mem_reverse] at hmem
  have hblock : p.1 ∈ childrenOf docId blocks := List.fst_mem_of_mem_zipIdx hmem
  unfold childrenOf at hblock
  rw [List.mem_insertionSort, List.mem_filter, Bool.and_eq_true] at hblock
  have hne : row.childId ≠ "" := by
    rw [← hchild]
    simpa using hblock.2.2
  exact ⟨rfl, hblock.1, hchild, hne, rfl, rfl, rfl⟩

theorem groups_perm (ws : List Work) : ((groups ws).flatMap Bucket.all).Perm (ws.filter Work.isProvider) :=
  ((List.perm_insertionSort _ _).flatMap_right _).trans (Bucket.buckets_perm _)

theorem mem_callChain {chain : EnricherChain} {children : List Block} {parents : List (String × String)} {g : Bucket Work}
    {r : Repair} (h : r ∈ callChain chain children parents g) :
    ∃ w ∈ g.all, ∃ res, EnricherChain.Sound res.merged ∧ r = chainRepair (joinCsv g.first.members) w res := by
  unfold callChain at h
  rw [← List.map_uncurry_zip_eq_zipWith, List.mem_map] at h
  obtain ⟨⟨w, res⟩, hmem, rfl⟩ := h
  obtain ⟨hw, hres⟩ := List.of_mem_zip hmem
  exact ⟨w, hw, res, EnricherChain.enrichChunks_sound chain hres, rfl⟩

/-- What the assembly and the writes keep of a repair. -/
structure Repair.Kept (r r' : Repair) : Prop where
  row : r'.row = r.row
  block : r'.block = r.block
  merged : r'.merged = r.merged

theorem Repair.Kept.refl (r : Repair) : r.Kept r := ⟨rfl, rfl, rfl⟩

theorem Repair.Kept.trans {r r' r'' : Repair} (h : r.Kept r') (h' : r'.Kept r'') : r.Kept r'' :=
  ⟨h'.row.trans h.row, h'.block.trans h.block, h'.merged.trans h.merged⟩

variable {env : Writer} {labels : Option (List ContextualVecLabelRow)} {hypeExpected : Bool} {existing : List String}
  {r : Repair} {rs : List Repair} {ws : WriteSet}

/-- A step of the assembly keeps the repair and what it says of the columns, and adds blocks of no chunk. -/
structure Assembled (r : Repair) (ws : WriteSet) (p : Repair × WriteSet) : Prop where
  kept : r.Kept p.1
  columns : p.1.ctxColumnsPresent = r.ctxColumnsPresent
  blocks : ∀ x ∈ p.2.blocks, x ∈ ws.blocks ∨ x.childId = ""

theorem Assembled.refl (r : Repair) (ws : WriteSet) : Assembled r ws (r, ws) := ⟨.refl r, rfl, fun _ hx => .inl hx⟩

theorem Assembled.trans {p q : Repair × WriteSet} (h : Assembled r ws p) (h' : Assembled p.1 p.2 q) :
    Assembled r ws q where
  kept := h.kept.trans h'.kept
  columns := h'.columns.trans h.columns
  blocks := fun x hx => by
    rcases h'.blocks x hx with hold | hnew
    · exact h.blocks x hold
    · exact .inr hnew

theorem assembled_addChainPoint : Assembled r ws (addChainPoint env labels r ws) := by
  unfold addChainPoint
  split
  · split
    · exact ⟨⟨rfl, rfl, rfl⟩, rfl, fun _ hx => .inl hx⟩
    · exact .refl r ws
  · exact .refl r ws

theorem assembled_addStoredPoint : Assembled r ws (addStoredPoint env labels r ws) := by
  unfold addStoredPoint
  split
  · dsimp only
    split
    · exact ⟨⟨rfl, rfl, rfl⟩, rfl, fun _ hx => .inl hx⟩
    · exact ⟨⟨rfl, rfl, rfl⟩, rfl, fun _ hx => .inl hx⟩
  · exact .refl r ws

theorem assembled_addHypeBlocks : Assembled r ws (addHypeBlocks env hypeExpected existing r ws) := by
  unfold addHypeBlocks
  split
  · split
    · exact ⟨⟨rfl, rfl, rfl⟩, rfl, fun _ hx => .inl hx⟩
    · refine ⟨⟨rfl, rfl, rfl⟩, rfl, fun x hx => ?_⟩
      rcases List.mem_append.mp hx with hold | hnew
      · exact .inl hold
      · obtain ⟨p, hp, rfl⟩ := List.mem_map.mp hnew
        obtain ⟨i, hi, rfl⟩ := List.mem_mapIdx.mp hp
        exact .inr rfl
  · exact .refl r ws

theorem assemble_cons : assemble env labels hypeExpected existing (r :: rs) ws =
    ((assembleOne env labels hypeExpected existing r ws).1 ::
        (assemble env labels hypeExpected existing rs (assembleOne env labels hypeExpected existing r ws).2).1,
      (assemble env labels hypeExpected existing rs (assembleOne env labels hypeExpected existing r ws).2).2) := rfl

theorem assembled_assembleOne : Assembled r ws (assembleOne env labels hypeExpected existing r ws) :=
  (assembled_addChainPoint.trans assembled_addStoredPoint).trans assembled_addHypeBlocks

theorem mem_assemble {x : Repair} (h : x ∈ (assemble env labels hypeExpected existing rs ws).1) :
    ∃ r ∈ rs, r.Kept x ∧ x.ctxColumnsPresent = r.ctxColumnsPresent := by
  induction rs generalizing ws with
  | nil => exact absurd h (by simp [assemble])
  | cons r rs ih =>
    rw [assemble_cons] at h
    rcases List.mem_cons.mp h with rfl | htail
    · exact ⟨r, by simp, assembled_assembleOne.kept, assembled_assembleOne.columns⟩
    · obtain ⟨r', hr', hkept⟩ := ih htail
      exact ⟨r', by simp [hr'], hkept⟩

theorem mem_assemble_blocks {x : Block} (h : x ∈ (assemble env labels hypeExpected existing rs ws).2.blocks) :
    x ∈ ws.blocks ∨ x.childId = "" := by
  induction rs generalizing ws with
  | nil => exact .inl h
  | cons r rs ih =>
    rw [assemble_cons] at h
    rcases ih h with hold | hnew
    · exact assembled_assembleOne.blocks x hold
    · exact .inr hnew

theorem insertBlocks_eq_some {new blocks blocks' : List Block} (h : insertBlocks new blocks = some blocks') :
    blocks' = blocks ++ new := by
  induction new generalizing blocks with
  | nil =>
    cases h
    exact (List.append_nil _).symm
  | cons x new ih =>
    obtain ⟨mid, hmid, h⟩ := Option.bind_eq_some_iff.mp h
    obtain ⟨-, rfl⟩ := insertRow_eq_some.mp hmid
    rw [ih h, List.append_assoc]
    rfl

/-! ### The writes of one repair -/

/-- A write to the block of an id: it keeps the ids, the other blocks and what the blocks say of hype questions. -/
structure Edited (b : Nat) (blocks blocks' : List Block) : Prop where
  ids : (blocks'.map fun x => (x.blockId, x.childId)) = blocks.map fun x => (x.blockId, x.childId)
  other : ∀ b', b' ≠ b → blockOf b' blocks' = blockOf b' blocks
  hype : hypeSources blocks' = hypeSources blocks

variable {b : Nat} {blocks' : List Block}

theorem Edited.refl (b : Nat) (blocks : List Block) : Edited b blocks blocks := ⟨rfl, fun _ _ => rfl, rfl⟩

theorem Edited.trans {blocks₁ blocks₂ blocks₃ : List Block} (h : Edited b blocks₁ blocks₂)
    (h' : Edited b blocks₂ blocks₃) : Edited b blocks₁ blocks₃ :=
  ⟨h'.ids.trans h.ids, fun b' hb => (h'.other b' hb).trans (h.other b' hb), h'.hype.trans h.hype⟩

theorem Edited.keyed (h : Edited b blocks blocks') (hkeys : Keyed Block.blockId blocks) :
    Keyed Block.blockId blocks' := by
  have hids := congrArg (List.map Prod.fst) h.ids
  rw [List.map_map, List.map_map] at hids
  show (blocks'.map Block.blockId).Nodup
  exact hids ▸ hkeys

theorem Edited.mem (h : Edited b blocks blocks') {x' : Block} (hx' : x' ∈ blocks') :
    ∃ x ∈ blocks, x'.childId = x.childId ∧ x'.blockId = x.blockId := by
  have hmem : (x'.blockId, x'.childId) ∈ blocks.map fun x => (x.blockId, x.childId) :=
    h.ids ▸ List.mem_map_of_mem hx'
  obtain ⟨x, hx, heq⟩ := List.mem_map.mp hmem
  rw [Prod.mk.injEq] at heq
  exact ⟨x, hx, heq.2.symm, heq.1.symm⟩

theorem blockOf_updateWhere {p : Block → Bool} {f : Block → Block} (hf : ∀ x, (f x).blockId = x.blockId) (b : Nat)
    (blocks : List Block) :
    blockOf b (updateWhere p f blocks) = (blockOf b blocks).map fun x => if p x then f x else x :=
  lookup_updateWhere hf b blocks

theorem blockOf_updateWhere_self {f : Block → Block} (hf : ∀ x, (f x).blockId = x.blockId) (b : Nat)
    (blocks : List Block) : blockOf b (updateWhere (fun x => x.blockId == b) f blocks) = (blockOf b blocks).map f := by
  rw [blockOf_updateWhere hf]
  rcases hx : blockOf b blocks with - | x
  · rfl
  · have hb : x.blockId = b := (lookup_eq_some hx).2
    simp [hb]

theorem edited_updateWhere {f : Block → Block} (hf : ∀ x, (f x).blockId = x.blockId)
    (hc : ∀ x, (f x).childId = x.childId) (hty : ∀ x, (f x).blockType = x.blockType)
    (hsrc : ∀ x, (f x).metadata.sourceChildId = x.metadata.sourceChildId) (b : Nat) (blocks : List Block) :
    Edited b blocks (updateWhere (fun x => x.blockId == b) f blocks) where
  ids := by
    unfold updateWhere
    rw [List.map_map]
    apply List.map_congr_left
    intro x _
    by_cases hb : x.blockId = b <;> simp [hb, hf, hc]
  other := by
    intro b' hne
    rw [blockOf_updateWhere hf]
    rcases hx : blockOf b' blocks with - | x
    · rfl
    · have hb : x.blockId = b' := (lookup_eq_some hx).2
      simp [hb, hne]
  hype := by
    unfold hypeSources updateWhere
    rw [List.filterMap_map]
    apply List.filterMap_congr
    intro x _
    by_cases hb : x.blockId = b <;> simp [hb, hty, hsrc]

theorem edited_writeEnrichment (b : Nat) (m : EnrichResult) (blocks : List Block) :
    Edited b blocks (writeEnrichment b m blocks) := by
  unfold writeEnrichment
  split
  · exact edited_updateWhere (by intro _; rfl) (by intro _; rfl) (by intro _; rfl) (by intro _; rfl) b blocks
  · exact .refl b blocks

theorem edited_updateBlockMetadataSummary (b : Nat) (summary : String) (blocks : List Block) :
    Edited b blocks (updateBlockMetadataSummary b summary blocks) := by
  unfold updateBlockMetadataSummary
  split
  · exact .refl b blocks
  · exact edited_updateWhere (by intro _; rfl) (by intro _; rfl) (by intro _; rfl) (by intro _; rfl) b blocks

theorem edited_writeContextualized (b : Nat) (m : EnrichResult) (blocks : List Block) :
    Edited b blocks (writeContextualized b m blocks) := by
  unfold writeContextualized
  split
  · exact edited_updateWhere (by intro _; rfl) (by intro _; rfl) (by intro _; rfl) (by intro _; rfl) b blocks
  · exact .refl b blocks

/-- A write of one repair. -/
structure Persisted (r : Repair) (st : UnitStore) (p : Repair × UnitStore) : Prop where
  kept : r.Kept p.1
  edited : Edited r.block.blockId st.blocks p.2.blocks

theorem persisted_persistScore {fault : Option String} {st : UnitStore} : Persisted r st (persistScore fault r st) := by
  unfold persistScore
  split
  · split
    · exact ⟨⟨rfl, rfl, rfl⟩, .refl _ _⟩
    · exact ⟨.refl r, (edited_writeEnrichment _ _ _).trans (edited_updateBlockMetadataSummary _ _ _)⟩
  · exact ⟨.refl r, .refl _ _⟩

theorem persisted_persistColumns {fault : Option String} {st : UnitStore} :
    Persisted r st (persistColumns fault r st) := by
  unfold persistColumns
  split
  · split
    · exact ⟨⟨rfl, rfl, rfl⟩, .refl _ _⟩
    · exact ⟨⟨rfl, rfl, rfl⟩, edited_writeContextualized _ _ _⟩
  · exact ⟨.refl r, .refl _ _⟩

theorem persistLabel_spec (r : Repair) (fault : Option String) (st : UnitStore) :
    r.Kept (persistLabel fault r st).1 ∧ (persistLabel fault r st).2.blocks = st.blocks ∧
      (persistLabel fault r st).1.ctxColumnsPresent = r.ctxColumnsPresent := by
  unfold persistLabel
  split
  · exact ⟨.refl r, rfl, rfl⟩
  · split
    · exact ⟨.refl r, rfl, rfl⟩
    · exact ⟨⟨rfl, rfl, rfl⟩, rfl, rfl⟩

theorem persisted_persist (f : Faults) (st : UnitStore) : Persisted r st (persist f r st) := by
  have hscore : Persisted r st (persistScore f.score r st) := persisted_persistScore
  have hcols : Persisted (persistScore f.score r st).1 (persistScore f.score r st).2
      (persistColumns f.columns (persistScore f.score r st).1 (persistScore f.score r st).2) := persisted_persistColumns
  obtain ⟨hkept, hblocks, -⟩ := persistLabel_spec
    (persistColumns f.columns (persistScore f.score r st).1 (persistScore f.score r st).2).1 f.label
    (persistColumns f.columns (persistScore f.score r st).1 (persistScore f.score r st).2).2
  refine ⟨(hscore.kept.trans hcols.kept).trans hkept, ?_⟩
  have hcolsEdited := hcols.edited
  rw [hscore.kept.block] at hcolsEdited
  unfold persist
  rw [hblocks]
  exact hscore.edited.trans hcolsEdited

/-- The columns are said to be in place only when they were, or when a vector was written. -/
theorem persist_columns (f : Faults) (st : UnitStore) (h : (persist f r st).1.ctxColumnsPresent = true) :
    r.ctxColumnsPresent = true ∨ r.merged.vector.isSome = true ∧
      ∃ blocks, (persist f r st).2.blocks = writeContextualized r.block.blockId r.merged blocks := by
  unfold persist at h ⊢
  obtain ⟨-, hblocks, hcolumns⟩ := persistLabel_spec
    (persistColumns f.columns (persistScore f.score r st).1 (persistScore f.score r st).2).1 f.label
    (persistColumns f.columns (persistScore f.score r st).1 (persistScore f.score r st).2).2
  rw [hcolumns] at h
  rw [hblocks]
  have hkept : r.Kept (persistScore f.score r st).1 := persisted_persistScore.kept
  have hsame : (persistScore f.score r st).1.ctxColumnsPresent = r.ctxColumnsPresent := by
    unfold persistScore
    split
    · split <;> rfl
    · rfl
  unfold persistColumns at h ⊢
  split at h
  · rename_i howes
    split at h
    · exact .inl (hsame ▸ h)
    · rw [if_pos howes]
      rw [Bool.or_eq_true, hsame, hkept.merged] at h
      rcases h with h | h
      · exact .inl h
      · refine .inr ⟨h, (persistScore f.score r st).2.blocks, ?_⟩
        rw [hkept.block, hkept.merged]
  · exact .inl (hsame ▸ h)

/-- The row of the flip: one attempt more than was read; below the cap, or with nothing but the label owed, it stays due. -/
theorem flipRow_spec (now : Int) (r : Repair) :
    (flipRow now r).blockId = r.row.blockId ∧ (flipRow now r).attempts = toInt (r.row.attempts + 1) ∧
      ((flipRow now r).isPending = true → toInt (r.row.attempts + 1) < kMaxAttempts ∨
        (flipRow now r).failedMembers = "f35" ∧ r.ctxColumnsPresent = true) := by
  unfold flipRow
  dsimp only
  split
  · exact ⟨rfl, rfl, fun h => absurd h (by simp [EnrichStateRow.isPending])⟩
  · split
    · exact ⟨rfl, rfl, fun h => absurd h (by simp [EnrichStateRow.isPending])⟩
    · rename_i hcap
      refine ⟨rfl, rfl, fun _ => ?_⟩
      by_cases hlt : toInt (r.row.attempts + 1) < kMaxAttempts
      · exact .inl hlt
      · refine .inr ?_
        have hlabel : onlyLabelOwed r = true := by
          by_contra hnot
          exact hcap ⟨by omega, by simpa using hnot⟩
        unfold onlyLabelOwed at hlabel
        rw [Bool.and_eq_true, beq_iff_eq] at hlabel
        refine ⟨?_, hlabel.2⟩
        show joinCsv r.stillOwed = "f35"
        rw [hlabel.1]
        decide

/-! ### Works and their rows -/

/-- The pairs of a classification: each row once, and the work of a row is of that row. -/
structure PairsOk (cs : List (EnrichStateRow × Option Work)) : Prop where
  unique : (cs.map fun c => c.1.blockId).Nodup
  rows : ∀ c ∈ cs, ∀ w, c.2 = some w → w.row = c.1

section Pairs

variable {cs : List (EnrichStateRow × Option Work)} {w' : Work}

theorem pairsOk_classifyAll {pending : List EnrichStateRow} (h : (pending.map EnrichStateRow.blockId).Nodup)
    (docId : String) (st : UnitStore) : PairsOk (classifyAll docId st pending) where
  unique := by
    unfold classifyAll
    rw [List.map_map]
    exact h
  rows := by
    intro c hc w hw
    obtain ⟨row, -, rfl⟩ := List.mem_map.mp hc
    exact (classify_eq_some hw).1

theorem mem_works : w ∈ works cs ↔ ∃ c ∈ cs, c.2 = some w := by
  unfold works
  rw [List.mem_filterMap]

theorem PairsOk.tail {c : EnrichStateRow × Option Work} (h : PairsOk (c :: cs)) : PairsOk cs :=
  ⟨(List.nodup_cons.mp h.unique).2, fun c' hc' => h.rows c' (by simp [hc'])⟩

theorem PairsOk.works_sublist (h : PairsOk cs) :
    ((works cs).map fun w => w.row.blockId).Sublist (cs.map fun c => c.1.blockId) := by
  induction cs with
  | nil => exact List.Sublist.refl _
  | cons c cs ih =>
    unfold works
    rw [List.filterMap_cons]
    split
    · exact (ih h.tail).cons _
    · rename_i w hw
      rw [List.map_cons, List.map_cons, h.rows c (by simp) w hw]
      exact (ih h.tail).cons_cons _

theorem PairsOk.works_nodup (h : PairsOk cs) : ((works cs).map fun w => w.row.blockId).Nodup :=
  h.unique.sublist h.works_sublist

theorem PairsOk.work_eq (h : PairsOk cs) (hw : w ∈ works cs) (hw' : w' ∈ works cs)
    (hb : w.row.blockId = w'.row.blockId) : w = w' :=
  List.inj_on_of_nodup_map h.works_nodup hw hw' hb

theorem PairsOk.providerIds_nodup (h : PairsOk cs) : (providerIds cs).Nodup :=
  h.unique.sublist (List.filter_sublist.map _)

theorem PairsOk.labelOnlyIds_nodup (h : PairsOk cs) : (labelOnlyIds cs).Nodup :=
  h.works_nodup.sublist (List.filter_sublist.map _)

theorem PairsOk.mem_providerIds (h : PairsOk cs) (hw : w ∈ works cs) :
    w.row.blockId ∈ providerIds cs ↔ w.isProvider = true := by
  obtain ⟨c, hc, hcw⟩ := mem_works.mp hw
  have hrow : w.row = c.1 := h.rows c hc w hcw
  unfold providerIds
  rw [List.mem_map]
  constructor
  · rintro ⟨c', hc', hid⟩
    rw [List.mem_filter] at hc'
    have heq : c' = c := List.inj_on_of_nodup_map h.unique hc'.1 hc (by rw [hid, hrow])
    have hall := hc'.2
    rwa [heq, hcw] at hall
  · intro hp
    exact ⟨c, List.mem_filter.mpr ⟨hc, by rw [hcw]; exact hp⟩, by rw [hrow]⟩

theorem PairsOk.mem_labelOnlyIds (h : PairsOk cs) (hw : w ∈ works cs) :
    w.row.blockId ∈ labelOnlyIds cs ↔ w.isLabelOnly = true := by
  unfold labelOnlyIds
  rw [List.mem_map]
  constructor
  · rintro ⟨w', hw', hid⟩
    rw [List.mem_filter] at hw'
    rw [h.work_eq hw hw'.1 hid.symm]
    exact hw'.2
  · exact fun hl => ⟨w, List.mem_filter.mpr ⟨hw, hl⟩, rfl⟩

theorem isSettled_eq_false : w.isSettled = false ↔ w.isProvider = true ∨ w.isLabelOnly = true := by
  rcases hp : w.isProvider <;> rcases hl : w.isLabelOnly <;> simp [Work.isSettled, hp, hl]

theorem isLabelOnly_stored (hl : w.isLabelOnly = true) : w.stored.isSome = true := by
  simp only [Work.isLabelOnly, Bool.and_eq_true] at hl
  exact hl.1.2

theorem isLabelOnly_not_provider (hl : w.isLabelOnly = true) : w.isProvider = false := by
  simp only [Work.isLabelOnly, Bool.and_eq_true] at hl
  simp [Work.isProvider, hl.1.1]

end Pairs

end Cortrix.Spc.BackfillWorker
