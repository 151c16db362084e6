import Cortrix.Common.Json
import Cortrix.Store.Documents

/-!
# From scored blocks to result items

`PostFilter` over the rows of a namespace.
-/

namespace Cortrix.Query
open Lib Metadata Store.Documents

/-- A row of `blocks`; the texts are `""` and the metadata `none` where the column is empty. -/
structure CortrixBlock where
  blockId : UInt64
  docId : String
  blockType : Nat
  contentText : String := ""
  childId : String := ""
  parentId : String := ""
  metadata : Option Metadata := none

structure CortrixDoc extends Doc where
  metadata : Option Metadata := none

structure Rows where
  docs : List CortrixDoc := []
  blocks : List CortrixBlock := []

def Rows.blockGet (r : Rows) (blockId : UInt64) : Option CortrixBlock := lookup CortrixBlock.blockId blockId r.blocks

def Rows.docGet (r : Rows) (docId : String) : Option CortrixDoc := lookup (·.docId) docId r.docs

/-- The document is one that no reader sees. -/
def Rows.hidden (r : Rows) (d : CortrixDoc) : Bool := hiddenDocPredicate (r.docs.map (·.toDoc)) d.toDoc

namespace PostFilter

/-! ## The filter of a request -/

structure QueryFilter where
  blockTypes : List String := []
  excludeTypes : List String := []
  sourcePath : String := ""
  createdAfter : String := ""

def kBlockMemory : Nat := 7
def kBlockHypeQuestion : Nat := 16
def kBlockDocSummary : Nat := 17

def blockTypeToString : Nat → String
  | 1 => "FILE"
  | 2 => "SCAN"
  | 3 => "DATABASE"
  | 4 => "AUDIO"
  | 5 => "VIDEO"
  | 6 => "IMAGE"
  | 7 => "MEMORY"
  | _ => "UNKNOWN"

/-- `GlobMatch`: one `*` at the start, at the end, at both, or inside. -/
def globMatch (pattern path : String) : Bool :=
  let p := pattern.toList
  let s := path.toList
  if p = [] then true
  else if p.head? = some '*' ∧ p.getLast? = some '*' then
    p.length ≤ 2 || s.tails.any fun t => (p.drop 1).dropLast.isPrefixOf t
  else if p.head? = some '*' then (p.drop 1).isSuffixOf s
  else if p.getLast? = some '*' then p.dropLast.isPrefixOf s
  else if '*' ∈ p then
    let pre := p.takeWhile (· ≠ '*')
    let suf := p.drop (pre.length + 1)
    pre.length + suf.length ≤ s.length && pre.isPrefixOf s && suf.isSuffixOf s
  else pattern = path

def matchFilter (b : CortrixBlock) (d : CortrixDoc) (f : QueryFilter) : Bool :=
  (f.blockTypes.isEmpty || f.blockTypes.contains (blockTypeToString b.blockType)) &&
    !f.excludeTypes.contains (blockTypeToString b.blockType) &&
      (f.sourcePath = "" || globMatch f.sourcePath d.sourcePath) &&
        (f.createdAfter = "" || !decide (d.createdAt < f.createdAfter))

/-! ## Items -/

structure ScoredBlock where
  blockId : UInt64
  rrfScore : Rat := 0

structure ResultItem where
  blockId : UInt64
  docId : String
  score : Rat
  sourcePath : String
  blockType : String
  chunkText : String
  metadata : Metadata

/-- The metadata of the document, with that of the block written over it. -/
def itemMetadata (b : CortrixBlock) (d : CortrixDoc) : Metadata := (b.metadata.getD []).overlay (d.metadata.getD [])

/-- The item of a scored block; `none` when the block or its document is gone, deleted or filtered out. -/
def resultItem (r : Rows) (f : QueryFilter) (sb : ScoredBlock) : Option ResultItem :=
  match r.blockGet sb.blockId with
  | none => none
  | some b =>
    match r.docGet b.docId with
    | none => none
    | some d =>
      if d.status = .deleted then none
      else if !matchFilter b d f then none
      else
        some ⟨sb.blockId, b.docId, sb.rrfScore, d.sourcePath, blockTypeToString b.blockType, b.contentText,
          itemMetadata b d⟩

/-- `Apply` with `n` items found so far. -/
def applyFrom (r : Rows) (f : QueryFilter) (topK : Int) : Nat → List ScoredBlock → List ResultItem
  | _, [] => []
  | n, sb :: rest =>
    if topK ≤ n then []
    else
      match resultItem r f sb with
      | some item => item :: applyFrom r f topK (n + 1) rest
      | none => applyFrom r f topK n rest

def apply (r : Rows) (f : QueryFilter) (topK : Int) (blocks : List ScoredBlock) : List ResultItem :=
  applyFrom r f topK 0 blocks

/-- `FetchByDocId`: the blocks of a document that have a text, in the order of the statement. -/
def fetchByDocId (r : Rows) (f : QueryFilter) (topK : Int) (docId : String) : List ResultItem :=
  let doc := r.docGet docId
  if doc.any (·.status = .deleted) then []
  else
    (((r.blocks.filter fun b => b.docId == docId).filter fun b =>
        !f.excludeTypes.contains (blockTypeToString b.blockType) && b.contentText != "").take topK.toNat).map fun b =>
      ⟨b.blockId, b.docId, 1, (doc.map (·.sourcePath)).getD "", blockTypeToString b.blockType, b.contentText,
        (doc.bind (·.metadata)).getD []⟩

/-! ## What is in the items -/

variable {r : Rows} {f : QueryFilter} {topK : Int}

theorem resultItem_eq_some {sb : ScoredBlock} {item : ResultItem} (h : resultItem r f sb = some item) :
    ∃ b d, r.blockGet sb.blockId = some b ∧ r.docGet b.docId = some d ∧ d.status ≠ .deleted ∧
      matchFilter b d f = true ∧ item.blockId = sb.blockId ∧ item.docId = b.docId ∧ item.chunkText = b.contentText ∧
        item.metadata = itemMetadata b d := by
  unfold resultItem at h
  split at h
  · cases h
  · rename_i b hb
    split at h
    · cases h
    · rename_i d hd
      split at h
      · cases h
      · rename_i hlive
        split at h
        · cases h
        · rename_i hmatch
          cases h
          exact ⟨b, d, hb, hd, hlive, by simpa using hmatch, rfl, rfl, rfl, rfl⟩

theorem mem_applyFrom {item : ResultItem} {n : Nat} {blocks : List ScoredBlock}
    (h : item ∈ applyFrom r f topK n blocks) : ∃ sb ∈ blocks, resultItem r f sb = some item := by
  induction blocks generalizing n with
  | nil => cases h
  | cons sb rest ih =>
    unfold applyFrom at h
    split at h
    · cases h
    · split at h
      · rename_i found hfound
        rcases List.mem_cons.mp h with rfl | h
        · exact ⟨sb, List.mem_cons_self, hfound⟩
        · obtain ⟨sb', hsb', hitem⟩ := ih h
          exact ⟨sb', List.mem_cons_of_mem _ hsb', hitem⟩
      · obtain ⟨sb', hsb', hitem⟩ := ih h
        exact ⟨sb', List.mem_cons_of_mem _ hsb', hitem⟩

theorem length_apply_le {blocks : List ScoredBlock} : (apply r f topK blocks).length ≤ blocks.length := by
  unfold apply
  generalize 0 = n
  induction blocks generalizing n with
  | nil => exact Nat.le_refl 0
  | cons sb rest ih =>
    unfold applyFrom
    split
    · exact Nat.zero_le _
    · split
      · exact Nat.succ_le_succ (ih (n + 1))
      · exact (ih n).trans (Nat.le_succ _)

end PostFilter

end Cortrix.Query
