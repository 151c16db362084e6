import Mathlib.Data.List.Perm.Basic
import Cortrix.Store.Stores

/-!
# What an ingest writes

The write set of a document, as the three paths of `SPCPipeline` build it before they store it in one transaction.

* `WriteSet.rows` : the rows of the write set; `WriteSet.pending` : the record of its transaction; `WriteSet.Pointed` :
  every block has a point.
-/

namespace Cortrix.Spc.Ingest
open Lib
open Cortrix.Store (PendingEntry Row Stores)

/-! ## The gates -/

def indexPointsExpected (docLevel : UInt8) (skipIndex : Bool) : Bool := decide (3 ≤ docLevel) && !skipIndex

def hypeBlocksExpected (docLevel : UInt8) : Bool := decide (3 ≤ docLevel)

/-! ## The write set -/

structure WriteSet where
  docId : Bytes
  /-- `child_block_ids`, the list of `BeginWrite`. -/
  blockIds : List UInt64
  vecPoints : List UInt64
  labels : List (UInt64 × UInt64) := []
  parents : List Bytes := []
  docFts5Row : Bool := false

/-- A chunk the cleaner has left, assembled. -/
structure ChildBlock where
  blockId : UInt64
  skipIndex : Bool := false
  embedded : Bool := true
  contextual : Option UInt64 := none

/-- A hype question or the META block, and whether it has an embedding. -/
structure EmbeddedBlock where
  blockId : UInt64
  embedded : Bool := true

/-- A parsed document on its way into the stores. -/
structure ParsedDoc where
  docId : Bytes
  level : UInt8 := 3
  children : List ChildBlock := []
  /-- The hype questions with an embedding result. -/
  hype : List EmbeddedBlock := []
  metaBlock : Option EmbeddedBlock := none
  parents : List Bytes := []
  /-- The contextual labels whose row could not be written. -/
  unlabeled : List UInt64 := []

/-- The points of a chunk: its own and the contextual one. -/
def ChildBlock.points (level : UInt8) (c : ChildBlock) : List UInt64 :=
  let indexPoints := indexPointsExpected level c.skipIndex
  (if indexPoints && c.embedded then [c.blockId] else []) ++ (if indexPoints then c.contextual.toList else [])

def ChildBlock.labelRows (level : UInt8) (c : ChildBlock) : List (UInt64 × UInt64) :=
  if indexPointsExpected level c.skipIndex then c.contextual.toList.map fun label => (label, c.blockId) else []

def EmbeddedBlock.points (b : EmbeddedBlock) : List UInt64 := if b.embedded then [b.blockId] else []

namespace ParsedDoc
variable (p : ParsedDoc)

def hypeBlocks : List EmbeddedBlock := if hypeBlocksExpected p.level then p.hype else []

/-- The META block of the write set: its embedding is looked at only at the full level. -/
def metaPoints : List UInt64 := if 3 ≤ p.level then p.metaBlock.toList.flatMap EmbeddedBlock.points else []

/-- The points collected before the label rows are written. -/
def collectedPoints : List UInt64 :=
  p.children.flatMap (ChildBlock.points p.level) ++ p.hypeBlocks.flatMap EmbeddedBlock.points ++ p.metaPoints

end ParsedDoc

/-- The write set of `ProcessParsed`. A point whose label row could not be written is left out. -/
def processParsed (p : ParsedDoc) : WriteSet where
  docId := p.docId
  blockIds :=
    p.children.map ChildBlock.blockId ++ p.hypeBlocks.map EmbeddedBlock.blockId ++
      p.metaBlock.toList.map EmbeddedBlock.blockId
  vecPoints := p.collectedPoints.filter fun label => !p.unlabeled.contains label
  labels := (p.children.flatMap (ChildBlock.labelRows p.level)).filter fun row => !p.unlabeled.contains row.1
  parents := p.parents
  docFts5Row := p.metaBlock.isSome

/-- The memory path: one block, indexed when it has an embedding. -/
def processMemory (docId : Bytes) (b : EmbeddedBlock) : WriteSet where
  docId := docId
  blockIds := [b.blockId]
  vecPoints := b.points

/-- The metadata-only path: one block and no vector. -/
def processL1 (docId : Bytes) (blockId : UInt64) : WriteSet where
  docId := docId
  blockIds := [blockId]
  vecPoints := []

inductive Input
  | memory (docId : Bytes) (b : EmbeddedBlock)
  | l1 (docId : Bytes) (blockId : UInt64)
  | parsed (p : ParsedDoc)

def Input.writeSet : Input → WriteSet
  | .memory docId b => processMemory docId b
  | .l1 docId blockId => processL1 docId blockId
  | .parsed p => processParsed p

namespace WriteSet
variable (w : WriteSet)

def rows : List Row :=
  (if w.docFts5Row then [.docFts (Stores.cStr w.docId)] else []) ++ w.vecPoints.map .point ++
    w.parents.map (fun parentId => .parent parentId (Stores.cStr w.docId)) ++ w.blockIds.map .block

/-- The PENDING record of `BeginWrite`: an ingest writes no blob. -/
def pending (txn : UInt64) (now : Int64) : PendingEntry :=
  { state := .pending, txnId := txn, timestampMs := now, docId := w.docId, blockIds := w.blockIds, hasBlob := false,
    scope := .document }

def Pointed : Prop := ∀ b ∈ w.blockIds, b ∈ w.vecPoints

instance : Decidable w.Pointed := List.decidableBAll (· ∈ w.vecPoints) w.blockIds

end WriteSet

theorem EmbeddedBlock.mem_points {m : EmbeddedBlock} {b : UInt64} : b ∈ m.points ↔ (m.blockId, m.embedded) = (b, true) := by
  unfold EmbeddedBlock.points
  rcases m.embedded
  · simp
  · simp [eq_comm]

end Cortrix.Spc.Ingest
