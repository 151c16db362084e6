import Cortrix.Spc.EnricherChain
import Cortrix.Spc.EnrichStateStore

/-!
# The enrichment audit

The chunks of a namespace against the members of the configured chain: a member whose artifact is missing is owed, where
the ingest's index gates let it be written at all. The audit reads the artifacts and the statuses first and then goes
through the chunks one by one, so what it writes for a chunk rests on an older view.
-/

namespace Cortrix.Spc
open Lib

/-- The keys of `metadata_json` that are read; text that is not an object has none. -/
structure BlockMetadata where
  skipIndex : Bool := false
  sourceChildId : Option String := none
  summary : Option String := none
  deriving DecidableEq

/-- A row of `blocks`. An empty `childId` is the SQL `NULL`, as is a contextual status of 0. -/
structure Block where
  blockId : Nat
  docId : String
  childId : String
  parentId : String
  chunkIndex : Int
  blockType : Nat
  contentText : String
  metadata : BlockMetadata
  enrichedScore : Option Rat
  contextualizedText : Option String
  contextualizedEmbedding : Option Embedding
  contextualizedStatus : Int
  deriving DecidableEq

def kBlockHypeQuestion : Nat := 16

structure ContextualVecLabelRow where
  label : Nat
  blockId : Nat
  childId : String

/-- The tables the artifacts are in; `labels` is `none` where the table does not exist. -/
structure UnitStore where
  blocks : List Block
  labels : Option (List ContextualVecLabelRow)
  docs : List (String × Int)
  parents : List (String × String)
  points : List (Embedding × Nat)

/-- The block id of a chunk is the hash of its child id. -/
def KeyedBy (hash : String → Nat) (childId : String) (blockId : Nat) : Prop := childId ≠ "" → blockId = hash childId

instance (hash : String → Nat) (childId : String) (blockId : Nat) : Decidable (KeyedBy hash childId blockId) :=
  inferInstanceAs (Decidable (_ → _))

def BlocksKeyed (hash : String → Nat) (blocks : List Block) : Prop := ∀ x ∈ blocks, KeyedBy hash x.childId x.blockId

instance (hash : String → Nat) (blocks : List Block) : Decidable (BlocksKeyed hash blocks) :=
  inferInstanceAs (Decidable (∀ x ∈ blocks, _))

/-! ## The ingest's index gates -/

def indexPointsExpected (docLevel : Int) (skipIndex : Bool) : Bool := decide (3 ≤ docLevel) && !skipIndex

def hypeBlocksExpected (docLevel : Int) : Bool := decide (3 ≤ docLevel)

/-- A document without a row reads as the full level. -/
def docLevelOf (docs : List (String × Int)) (docId : String) : Int :=
  ((docs.find? fun d => d.1 == docId).map Prod.snd).getD 3

/-! ## Stored artifacts -/

/-- `kBlockHasStoredContextualVectorSql`, with the vector. -/
def Block.vector (b : Block) : Option Embedding :=
  if b.contextualizedStatus = 1 then b.contextualizedEmbedding.filter fun v => !v.isEmpty else none

def blockOf (blockId : Nat) (blocks : List Block) : Option Block := lookup Block.blockId blockId blocks

/-- `ReadStoredContextualVector`; `none` is its NotFound. -/
def storedVector (blockId : Nat) (blocks : List Block) : Option Embedding := (blockOf blockId blocks).bind Block.vector

def hypeSources (blocks : List Block) : List String :=
  blocks.filterMap fun b => if b.blockType = kBlockHypeQuestion then b.metadata.sourceChildId else none

def joinCsv (toks : List String) : String :=
  toks.foldl (fun out t => (if out.isEmpty then out else out ++ ",") ++ t) ""

/-! ## The audit -/

/-- What the audit has read before it goes through the chunks. -/
structure AuditView where
  configured : List String
  hypeSources : List String
  ctxLabels : Option (List Nat)
  docLevels : List (String × Int)
  inFlight : List Nat
  givenUp : List Nat

/-- The passes over the artifacts. -/
def AuditView.ofStore (configured : List String) (st : UnitStore) : AuditView where
  configured
  hypeSources := Spc.hypeSources st.blocks
  ctxLabels := st.labels.map fun ls => ls.map ContextualVecLabelRow.blockId
  docLevels := st.docs
  inFlight := []
  givenUp := []

/-- The pass over the statuses. -/
def AuditView.track (v : AuditView) (rows : List EnrichStateRow) : AuditView :=
  { v with
    inFlight := (rows.filter EnrichStateRow.isPending).map EnrichStateRow.blockId
    givenUp := (rows.filter EnrichStateRow.isGivenUp).map EnrichStateRow.blockId }

namespace AuditView

def labelExpected (v : AuditView) (b : Block) : Bool :=
  indexPointsExpected (docLevelOf v.docLevels b.docId) b.metadata.skipIndex

def hypeExpected (v : AuditView) (b : Block) : Bool := hypeBlocksExpected (docLevelOf v.docLevels b.docId)

/-- The columns are written and, where the ingest indexes the chunk at all, its label is. -/
def f35Done (v : AuditView) (b : Block) : Bool :=
  b.contextualizedStatus == 1 && (!v.labelExpected b || v.ctxLabels.all fun ls => ls.contains b.blockId)

/-- The members whose artifact is missing. -/
def owedMembers (v : AuditView) (b : Block) : List String :=
  (if v.configured.contains "f03" && b.enrichedScore.isNone then ["f03"] else []) ++
  ((if v.configured.contains "f35" && !v.f35Done b then ["f35"] else []) ++
   (if v.configured.contains "f38" && v.hypeExpected b && !v.hypeSources.contains b.childId then ["f38"] else []))

/-- Only the index label is missing: the columns and the vector are there, and nothing else is owed. -/
def labelOnlyMiss (v : AuditView) (b : Block) : Bool :=
  v.configured.contains "f35" && !v.f35Done b && b.vector.isSome && v.owedMembers b == ["f35"]

end AuditView

inductive AuditWrite
  | settle (blockId : Nat)
  | reowe (w : EnrichStateRow) (terminalAt : Int)

def auditRow (v : AuditView) (now : Int) (b : Block) : EnrichStateRow where
  blockId := b.blockId
  docId := b.docId
  childId := b.childId
  status := .pendingRetry
  failedMembers := joinCsv (v.owedMembers b)
  attempts := 0
  lastError := utf8 "audit: artifacts missing".toList
  nextRetryAt := some now
  updatedAt := now
  generation := 0

def auditBlock (v : AuditView) (now : Int) (b : Block) : Option AuditWrite :=
  if (v.owedMembers b).isEmpty then
    if v.givenUp.contains b.blockId then some (.settle b.blockId) else none
  else if v.inFlight.contains b.blockId then none
  else if v.givenUp.contains b.blockId && !v.labelOnlyMiss b then none
  else some (.reowe (auditRow v now b) (if v.labelOnlyMiss b then kEnrichNoTerminal else kEnrichMaxAttempts))

def AuditWrite.apply (now : Int) (rows : List EnrichStateRow) : AuditWrite → List EnrichStateRow
  | .settle blockId => settleTerminalRow blockId now rows
  | .reowe w terminalAt => reoweEnrichState w terminalAt rows

def synthesizeEnrichAuditRows (configured : List String) (now : Int) (st : UnitStore) (rows : List EnrichStateRow) :
    List EnrichStateRow :=
  let v := (AuditView.ofStore configured st).track rows
  (st.blocks.filter fun b => b.childId != "").foldl
    (fun rows b => ((auditBlock v now b).map (AuditWrite.apply now rows)).getD rows) rows

/-! ## What the audit writes for a chunk -/

variable {v : AuditView} {now t : Int} {x : Block} {w : EnrichStateRow}

theorem auditBlock_eq_reowe (h : auditBlock v now x = some (.reowe w t)) :
    w = auditRow v now x ∧ v.owedMembers x ≠ [] ∧
      (t = kEnrichMaxAttempts ∨ t = kEnrichNoTerminal ∧ v.labelOnlyMiss x = true) := by
  unfold auditBlock at h
  split at h
  · split at h <;> cases h
  · rename_i howed
    split at h
    · cases h
    · split at h
      · cases h
      · cases h
        refine ⟨rfl, fun hnil => howed (by rw [hnil]; rfl), ?_⟩
        split
        · exact .inr ⟨rfl, by assumption⟩
        · exact .inl rfl

end Cortrix.Spc
