import Cortrix.Common.Status
import Cortrix.Spc.RecursiveChunker
import Mathlib.Data.List.DropRight

/-!
# The parent-child chunker

A document is cut into units; neighbouring units are packed into parents of at most `parent_size` tokens, and each
parent is split into children. A document with too many parents is split into children only.

* the token counter, the clock and the ids drawn are parameters; `M` is the type of the metadata, which is only copied.
-/

namespace Cortrix.Chunker
open Lib Cortrix.Spc.RecursiveChunker

structure ParsedPage where
  pageNum : Int32 := 0
  pageText : Bytes := []
  paragraphs : List Bytes := []

inductive ChunkStrategy
  | parentChild | flat | semantic
  deriving DecidableEq

inductive UnitLevel
  | page | paragraph | sentence

structure ChunkerConfig where
  strategy : ChunkStrategy := .parentChild
  parentSize : Int32 := 1024
  childSize : Int32 := 200
  childOverlap : Int32 := 20
  unitLevel : UnitLevel := .paragraph
  maxParentsPerDoc : Int32 := 10000
  fallbackToFlatThreshold : Int32 := 10000

structure ChunkerStats where
  totalPages : UInt32 := 0
  succeededPages : UInt32 := 0
  failedPages : UInt32 := 0
  totalParents : UInt32 := 0
  totalChildren : UInt32 := 0
  emptyParents : UInt32 := 0
  fallbackToFlat : Bool := false
  deriving DecidableEq

variable {M : Type}

structure ChunkerInput (M : Type) where
  docId : String
  namespaceId : String
  pages : List ParsedPage
  metadata : M

structure ParentChunk (M : Type) where
  parentId : String
  docId : String
  namespaceId : String
  parentText : Bytes
  tokenCount : UInt32
  pageStart : UInt32
  pageEnd : UInt32
  byteOffsetStart : Nat
  byteOffsetEnd : Nat
  metadata : M
  childIds : List String
  createdAt : Int
  deriving DecidableEq

structure ChildChunk (M : Type) where
  childId : String
  parentId : String
  docId : String
  namespaceId : String
  childText : Bytes
  tokenCount : UInt32
  parentOffset : UInt32
  chunkIndex : UInt32
  metadata : M
  createdAt : Int
  deriving DecidableEq

structure ChunkerOutput (M : Type) where
  parents : List (ParentChunk M) := []
  children : List (ChildChunk M) := []
  stats : ChunkerStats := {}
  deriving DecidableEq

namespace ChunkErrors

def kEmptyDocument := "CX_ERR_CHUNK_EMPTY_DOCUMENT"
def kOverflow := "CX_ERR_CHUNK_OVERFLOW"

end ChunkErrors

def chunkStatus (sc : StatusCode) (code detail : String) : Status := ⟨sc, code ++ ": " ++ detail⟩

/-! ## Units -/

def isSpace (c : UInt8) : Bool := c == 0x20 || c == 0x09 || c == 0x0D || c == 0x0A || c == 0x0C

def trim (s : Bytes) : Bytes := (s.dropWhile isSpace).rdropWhile isSpace

/-- `tokens` after a run of `run` ASCII bytes. -/
def endRun (run : Nat) (tokens : UInt32) : UInt32 :=
  if run = 0 then tokens else tokens + max 1 (UInt32.ofNat ((run + 3) / 4))

/-- The loop of `EstimateTokens`: `skip` bytes belong to a character already counted, `run` bytes to an open run. -/
def estimateLoop : Nat → Nat → UInt32 → Bytes → UInt32
  | _, run, tokens, [] => endRun run tokens
  | skip + 1, run, tokens, _ :: text => estimateLoop skip run tokens text
  | 0, run, tokens, c :: text =>
    if c < 0x80 then
      if isSpace c then estimateLoop 0 0 (endRun run tokens) text else estimateLoop 0 (run + 1) tokens text
    else estimateLoop (charLen c - 1) 0 (endRun run tokens + 1) text

def estimateTokens (text : Bytes) : UInt32 := estimateLoop 0 0 0 text

/-- A unit of the source text; the document is in memory, so its byte offsets do not wrap. -/
structure TextUnit where
  text : Bytes
  tokenCount : UInt32 := 0
  pageNum : UInt32 := 0
  byteOffset : Nat := 0

structure Collecting where
  units : List TextUnit := []
  runningOffset : Nat := 0
  pageHadContent : Bool := false

def emit (counter : Bytes → UInt32) (pageNum : UInt32) (st : Collecting) (raw : Bytes) : Collecting :=
  let text := trim raw
  if text.isEmpty then st
  else
    { units := st.units ++
        [{ text := text, tokenCount := counter text, pageNum := pageNum, byteOffset := st.runningOffset }],
      runningOffset := st.runningOffset + text.length,
      pageHadContent := true }

def rawUnits (config : ChunkerConfig) (page : ParsedPage) : List Bytes :=
  match config.unitLevel with
  | .page => [page.pageText]
  | .sentence =>
    (chunks { chunkSize := config.childSize, chunkOverlap := 0 } page.pageText).map fun cr => cr.text
  | .paragraph => if page.paragraphs.isEmpty then [page.pageText] else page.paragraphs

def pageNumber (page : ParsedPage) : UInt32 := if 0 ≤ page.pageNum then page.pageNum.toUInt32 else 0

def collectPage (config : ChunkerConfig) (counter : Bytes → UInt32) (st : Collecting × ChunkerStats)
    (page : ParsedPage) : Collecting × ChunkerStats :=
  let c := (rawUnits config page).foldl (emit counter (pageNumber page)) { st.1 with pageHadContent := false }
  let stats := { st.2 with totalPages := st.2.totalPages + 1 }
  (c, if c.pageHadContent then { stats with succeededPages := stats.succeededPages + 1 }
    else { stats with failedPages := stats.failedPages + 1 })

def collectUnits (config : ChunkerConfig) (counter : Bytes → UInt32) (input : ChunkerInput M) :
    List TextUnit × ChunkerStats :=
  let r := input.pages.foldl (collectPage config counter) ({}, {})
  (r.1.units, r.2)

/-! ## Children -/

structure ChildSpan where
  text : Bytes
  parentOffset : UInt32
  tokenCount : UInt32

/-- The spans of the chunks; `searchFrom` is where the next one is looked for. -/
def childSpans (counter : Bytes → UInt32) (parentText : Bytes) : Nat → List ChunkResult → List ChildSpan
  | _, [] => []
  | searchFrom, cr :: raw =>
    if cr.text.isEmpty then childSpans counter parentText searchFrom raw
    else
      let pos := (find parentText cr.text searchFrom).getD (if searchFrom ≤ parentText.length then searchFrom else 0)
      { text := cr.text, parentOffset := UInt32.ofNat pos, tokenCount := counter cr.text } ::
        childSpans counter parentText (pos + 1) raw

def splitIntoChildren (config : ChunkerConfig) (counter : Bytes → UInt32) (parentText : Bytes) : List ChildSpan :=
  childSpans counter parentText 0
    (chunks { chunkSize := config.childSize, chunkOverlap := config.childOverlap } parentText)

/-- The children for some spans, with the ids drawn from `drawn` on. -/
def childrenOf (input : ChunkerInput M) (ids : Nat → String) (nowMs : Int) (parentId : String) (metadata : M) :
    Nat → UInt32 → List ChildSpan → List (ChildChunk M)
  | _, _, [] => []
  | drawn, chunkIndex, span :: spans =>
    { childId := ids drawn
      parentId := parentId
      docId := input.docId
      namespaceId := input.namespaceId
      childText := span.text
      tokenCount := span.tokenCount
      parentOffset := span.parentOffset
      chunkIndex := chunkIndex
      metadata := metadata
      createdAt := nowMs } :: childrenOf input ids nowMs parentId metadata (drawn + 1) (chunkIndex + 1) spans

/-! ## Parents -/

def appendUnit (text : Bytes) (u : TextUnit) : Bytes := (if text.isEmpty then [] else text ++ [0x0A]) ++ u.text

/-- The locals of the outer loop of `BuildParentChild`. -/
structure OpenParent where
  parentText : Bytes := []
  parentTokens : UInt32 := 0
  pageStart : UInt32
  pageEnd : UInt32
  byteStart : Nat
  byteEnd : Nat

def OpenParent.start (u : TextUnit) : OpenParent :=
  { pageStart := u.pageNum, pageEnd := u.pageNum, byteStart := u.byteOffset, byteEnd := u.byteOffset }

def OpenParent.append (p : OpenParent) (u : TextUnit) : OpenParent :=
  { p with
    parentText := appendUnit p.parentText u
    parentTokens := p.parentTokens + u.tokenCount
    pageEnd := u.pageNum
    byteEnd := u.byteOffset + u.text.length }

/-- The inner loop: the parent to flush and the units that are left. -/
def fill (parentSize : Int32) (p : OpenParent) : List TextUnit → OpenParent × List TextUnit
  | [] => (p, [])
  | u :: units =>
    if p.parentText.isEmpty = false ∧ parentSize.toUInt32 < p.parentTokens + u.tokenCount then (p, u :: units)
    else fill parentSize (p.append u) units

/-- What `BuildParentChild` writes to, with its `chunk_index` and the number of ids drawn. -/
structure Building (M : Type) where
  parents : List (ParentChunk M) := []
  children : List (ChildChunk M) := []
  emptyParents : UInt32 := 0
  chunkIndex : UInt32 := 0
  drawn : Nat := 0

section
variable (config : ChunkerConfig) (counter : Bytes → UInt32) (ids : Nat → String) (nowMs : Int) (input : ChunkerInput M)

def flush (p : OpenParent) (b : Building M) : Building M :=
  if p.parentText.isEmpty then { b with emptyParents := b.emptyParents + 1 }
  else
    let parentId := ids b.drawn
    let spans := splitIntoChildren config counter p.parentText
    let children := childrenOf input ids nowMs parentId input.metadata (b.drawn + 1) b.chunkIndex spans
    { b with
      parents := b.parents ++
        [{ parentId := parentId
           docId := input.docId
           namespaceId := input.namespaceId
           parentText := p.parentText
           tokenCount := counter p.parentText
           pageStart := p.pageStart
           pageEnd := p.pageEnd
           byteOffsetStart := p.byteStart
           byteOffsetEnd := p.byteEnd
           metadata := input.metadata
           childIds := children.map fun c => c.childId
           createdAt := nowMs }]
      children := b.children ++ children
      chunkIndex := b.chunkIndex + UInt32.ofNat spans.length
      drawn := b.drawn + 1 + spans.length }

theorem fill_length (parentSize : Int32) (p : OpenParent) (units : List TextUnit) :
    (fill parentSize p units).2.length ≤ units.length := by
  induction units generalizing p with
  | nil => exact Nat.le_refl _
  | cons u units ih =>
    rw [fill]
    split
    · exact Nat.le_refl _
    · exact Nat.le_trans (ih _) (Nat.le_succ _)

theorem fill_start (parentSize : Int32) (u : TextUnit) (units : List TextUnit) :
    fill parentSize (OpenParent.start u) (u :: units) = fill parentSize ((OpenParent.start u).append u) units := by
  rw [fill, if_neg fun h => absurd h.1 (by simp [OpenParent.start])]

def buildLoop (b : Building M) : List TextUnit → Building M
  | [] => b
  | u :: units =>
    let r := fill config.parentSize (OpenParent.start u) (u :: units)
    buildLoop (flush config counter ids nowMs input r.1 b) r.2
  termination_by units => units.length
  decreasing_by
    rw [fill_start]
    exact Nat.lt_succ_of_le (fill_length _ _ _)

def buildParentChild (units : List TextUnit) (output : ChunkerOutput M) : ChunkerOutput M :=
  let b := buildLoop config counter ids nowMs input {} units
  { parents := output.parents ++ b.parents
    children := output.children ++ b.children
    stats := { output.stats with emptyParents := output.stats.emptyParents + b.emptyParents } }

def buildFlat (units : List TextUnit) (output : ChunkerOutput M) : ChunkerOutput M :=
  let full := units.foldl appendUnit []
  { output with
    children := output.children ++
      childrenOf input ids nowMs "" input.metadata 0 0 (splitIntoChildren config counter full)
    stats := { output.stats with fallbackToFlat := true } }

end

/-! ## Chunk -/

def totalTokens (units : List TextUnit) : UInt64 := units.foldl (fun total u => total + u.tokenCount.toUInt64) 0

def estParents (config : ChunkerConfig) (units : List TextUnit) : UInt64 :=
  let psize := (max 1 config.parentSize).toUInt32.toUInt64
  (totalTokens units + psize - 1) / psize

def emptyDocument (docId : String) (stats : ChunkerStats) : Status :=
  chunkStatus .invalidArgument ChunkErrors.kEmptyDocument
    ("document '" ++ docId ++ "' produced no usable chunks (total_pages=" ++ toString stats.totalPages ++
      ", failed_pages=" ++ toString stats.failedPages ++ ")")

def overflow (docId : String) (parents : Nat) (maxParents : Int32) : Status :=
  chunkStatus .invalidArgument ChunkErrors.kOverflow
    ("document '" ++ docId ++ "' produced " ++ toString parents ++ " parents > max_parents_per_doc " ++
      toString maxParents ++ " and flat fallback failed")

/-- `static_cast<size_t>` of an `int`. -/
def toSize (n : Int32) : UInt64 := n.toInt64.toUInt64

def takesFlat (config : ChunkerConfig) (units : List TextUnit) : Prop :=
  config.strategy = .flat ∨ toSize config.fallbackToFlatThreshold < estParents config units

instance (config : ChunkerConfig) (units : List TextUnit) : Decidable (takesFlat config units) :=
  inferInstanceAs (Decidable (_ ∨ _))

def ChunkerOutput.counted (output : ChunkerOutput M) : ChunkerOutput M :=
  { output with
    stats := { output.stats with
      totalParents := UInt32.ofNat output.parents.length
      totalChildren := UInt32.ofNat output.children.length } }

def chunkDocument (config : ChunkerConfig) (counter : Bytes → UInt32) (ids : Nat → String) (nowMs : Int)
    (input : ChunkerInput M) : Except Status (ChunkerOutput M) :=
  let r := collectUnits config counter input
  let output : ChunkerOutput M := { stats := r.2 }
  if r.1.isEmpty then .error (emptyDocument input.docId r.2)
  else if takesFlat config r.1 then .ok (buildFlat config counter ids nowMs input r.1 output).counted
  else
    let output := buildParentChild config counter ids nowMs input r.1 output
    if (toSize config.maxParentsPerDoc).toNat < output.parents.length then
      .error (overflow input.docId output.parents.length config.maxParentsPerDoc)
    else .ok output.counted

end Cortrix.Chunker
