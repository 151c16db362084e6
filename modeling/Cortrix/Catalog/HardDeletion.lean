import Cortrix.Spc.FailedIngest
import Cortrix.Store.Documents

/-!
# A hard deletion beside an ingest

The sweep, the directory importer and an import's cleanup each delete a document for good. They read the block list,
mark the vectors and drop the rows in separate calls, between which an ingest of the document may write. The next load
of the namespace settles the open transactions and the documents that a crash left half done.

* `Contents` : the tables and the live points of a unit, with the statements that are issued on them.
-/

namespace Cortrix.Catalog.HardDeletion
open Lib
open Store (PendingEntry Row Stores)
open Store.Documents (DocStatus)
open Spc.FailedIngest (Answers Child Document Write attempts firstError payload written)

/-! ## The stores of a unit -/

structure BlockRow where
  blockId : UInt64
  docId : Bytes
  childId : Bytes := []

structure Contents where
  documents : Bytes → Option DocStatus
  blocks : List BlockRow := []
  parents : List (Bytes × Bytes) := []
  docFts : List Bytes := []
  /-- `contextual_vec_labels`: the label and its block. -/
  labels : List (UInt64 × UInt64) := []
  /-- The block and its document. -/
  enrichState : List (UInt64 × Bytes) := []
  sparseIndex : List Bytes := []
  /-- The live vectors. -/
  points : List UInt64 := []
  maxVariables : Nat := 32766

def childIdOf (d : Document) (b : UInt64) : Bytes :=
  ((d.childBlocks.lookup b).bind id).elim [] Child.childId

namespace Contents

/-! ### The ingest -/

def write (docId : Bytes) (d : Document) (c : Contents) : Write → Contents
  | .row (.block b) => { c with blocks := c.blocks ++ [⟨b, docId, childIdOf d b⟩] }
  | .row (.point l) => { c with points := l :: c.points }
  | .row (.parent p x) => { c with parents := c.parents ++ [(p, x)] }
  | .row (.docFts x) => { c with docFts := deleteWhere (· == x) c.docFts ++ [x] }
  | .label l b => { c with labels := upsertRow Prod.fst (l, b) c.labels }
  | .enrichState b => { c with enrichState := upsertRow Prod.fst (b, docId) c.enrichState }
  | .sparse ch => { c with sparseIndex := deleteWhere (· == ch) c.sparseIndex ++ [ch] }

/-- `blocks.doc_id` refers to the documents table, and `block_id` is the primary key. -/
def accepts (docId : Bytes) (c : Contents) : Write → Bool
  | .row (.block b) => (c.documents docId).isSome && !c.blocks.any (·.blockId == b)
  | _ => true

/-! ### The deletion -/

def blockGetByDoc (docId : Bytes) (c : Contents) : List UInt64 :=
  (c.blocks.filter (·.docId == docId)).map BlockRow.blockId

def markDelete (l : UInt64) (c : Contents) : Contents := { c with points := deleteWhere (· == l) c.points }

def blockDeleteByDoc (docId : Bytes) (c : Contents) : Contents :=
  { c with blocks := deleteWhere (·.docId == docId) c.blocks }

/-- `doc_delete`: the blocks and the document in one transaction. -/
def docDelete (docId : Bytes) (c : Contents) : Contents :=
  { c.blockDeleteByDoc docId with documents := Function.update c.documents docId none }

/-- `doc_delete_by_source_prefix`, of the documents that match. -/
def docDeleteBySourcePrefix (hit : Bytes → Bool) (c : Contents) : Contents :=
  { c with
    blocks := deleteWhere (fun r => (c.documents r.docId).isSome && hit r.docId) c.blocks
    documents := fun x => if hit x then none else c.documents x }

/-! ### The rollback callback -/

/-- A statement with the block ids as parameters prepares. -/
def fits (c : Contents) (ids : List UInt64) : Bool := decide (ids.length ≤ c.maxVariables)

def contextualOf (c : Contents) (ids : List UInt64) : List UInt64 :=
  if c.fits ids then (c.labels.filter fun p => ids.contains p.2).map Prod.fst else []

/-- The callback of the namespace pool; `failed` are the vectors whose deletion fails. -/
def rollbackCallback (failed : UInt64 → Bool) (c : Contents) (e : PendingEntry) : Contents :=
  let labels := c.contextualOf e.blockIds
  let docScoped := e.scope == .document && !e.docId.isEmpty
  { c with
    points := deleteWhere (fun l => (e.blockIds.contains l || labels.contains l) && !failed l) c.points
    labels := deleteWhere (fun p => labels.contains p.1 && !failed p.1) c.labels
    blocks := if c.fits e.blockIds then deleteWhere (fun r => e.blockIds.contains r.blockId) c.blocks else c.blocks
    parents := if docScoped then deleteWhere (·.2 == Stores.cStr e.docId) c.parents else c.parents
    docFts := if docScoped then deleteWhere (· == Stores.cStr e.docId) c.docFts else c.docFts }

/-! ### The load -/

/-- The stores as the three-way check and the callback of the coordinator see them. -/
def stores (c : Contents) : Stores where
  rows
    | .block b => c.blocks.any (·.blockId == b)
    | .point l => c.points.contains l
    | .parent p x => c.parents.contains (p, x)
    | .docFts x => c.docFts.contains x
  labels l := (c.labels.find? (·.1 == l)).map Prod.snd
  blobs _ := false
  maxVariables := c.maxVariables

/-- A transaction that all stores have is finalized, any other one rolled back. -/
def settle (failed : UInt64 → Bool) (c : Contents) (e : PendingEntry) : Contents :=
  if c.stores.allStoresHave e then c else c.rollbackCallback failed e

def recover (failed : UInt64 → Bool) (c : Contents) (opened : List PendingEntry) : Contents :=
  opened.foldl (settle failed) c

def crashed : Option DocStatus → Bool
  | some .processing | some .deleting => true
  | _ => false

/-- The blocks of documents that are `processing` or `deleting`. -/
def crashedBlocks (c : Contents) : List UInt64 :=
  (c.blocks.filter fun r => crashed (c.documents r.docId)).map BlockRow.blockId

def strayLabels (c : Contents) : List UInt64 :=
  (c.labels.filter fun p => !c.blocks.any (·.blockId == p.2)).map Prod.fst

def crashedLabels (c : Contents) : List UInt64 :=
  (c.labels.filter fun p => c.crashedBlocks.contains p.2).map Prod.fst ++ c.strayLabels

def dropCrashedDocVectors (failed : UInt64 → Bool) (c : Contents) : Contents :=
  { c with
    points := deleteWhere (fun l => (c.crashedBlocks.contains l || c.crashedLabels.contains l) && !failed l) c.points
    labels := deleteWhere (fun p => c.crashedLabels.contains p.1 && !failed p.1) c.labels
    parents := deleteWhere (fun p => c.documents p.2 == some .processing) c.parents }

def recoverCrashedDocs (c : Contents) : Contents :=
  { c with
    blocks := deleteWhere (fun r => crashed (c.documents r.docId)) c.blocks
    documents := fun x =>
      match c.documents x with
      | some .processing => some .pending
      | some .deleting => none
      | st => st }

def load (failed : UInt64 → Bool) (c : Contents) (opened : List PendingEntry) : Contents :=
  ((c.recover failed opened).dropCrashedDocVectors failed).recoverCrashedDocs

/-! ### The rows of a document -/

/-- The row is there, and is one of the document. -/
def Holds (docId : Bytes) (c : Contents) : Write → Prop
  | .row (.block b) => ∃ r ∈ c.blocks, r.blockId = b ∧ r.docId = docId
  | .row (.point l) => l ∈ c.points
  | .row (.parent p x) => (p, x) ∈ c.parents
  | .row (.docFts x) => x ∈ c.docFts
  | .label l b => (l, b) ∈ c.labels
  | .enrichState b => (b, docId) ∈ c.enrichState
  | .sparse ch => ch ∈ c.sparseIndex

/-- What belongs to the document: by its id, or by a block row of it. -/
def Belongs (docId : Bytes) (c : Contents) : Write → Prop
  | .row (.block b) => ∃ r ∈ c.blocks, r.blockId = b ∧ r.docId = docId
  | .row (.point l) => ∃ r ∈ c.blocks, (r.blockId = l ∨ (l, r.blockId) ∈ c.labels) ∧ r.docId = docId
  | .row (.parent _ x) | .row (.docFts x) => x = docId
  | .label l b => (l, b) ∈ c.labels ∧ ∃ r ∈ c.blocks, r.blockId = b ∧ r.docId = docId
  | .enrichState b => (b, docId) ∈ c.enrichState
  | .sparse ch => ∃ r ∈ c.blocks, r.childId = ch ∧ r.docId = docId

end Contents

/-! ## Runs -/

inductive Caller
  | sweeper | importer

/-- A deletion by `RunLocked` or `HandleFileDeletion` that has read the block list. -/
structure Deletion where
  caller : Caller
  /-- The blocks whose vectors are still to be marked. -/
  unmarked : List UInt64
  /-- `block_delete_by_doc` has returned. -/
  swept : Bool := false

/-- An ingest between `BeginWrite` and its end. -/
structure IngestRun where
  doc : Document
  entry : PendingEntry
  todo : List Write
  error : Option String

structure State where
  contents : Contents
  ingest : Option IngestRun := none
  deletion : Option Deletion := none
  pending : List PendingEntry := []
  /-- All that belonged to the document or was written for it. -/
  ever : Write → Prop

namespace State

/-- The transactions that a load finds open. -/
def opened (s : State) : List PendingEntry := (s.ingest.map IngestRun.entry).toList ++ s.pending

end State

/-- The answers of the stores are part of the action. -/
inductive Act
  | docCreate
  /-- `doc_update_status`, `doc_soft_delete` and the other statements that set the status of a row. -/
  | docUpdateStatus (st : DocStatus)
  | beginWrite (d : Document) (a : Answers) (txn : UInt64)
  | write
  /-- `Commit` or `Rollback`; whether its record was appended. -/
  | endWrite (logged : Bool) (failed : UInt64 → Bool)
  | blockGetByDoc (caller : Caller) (ok : Bool)
  | markDelete (ok : Bool)
  | blockDeleteByDoc (ok : Bool)
  | docDelete (ok : Bool)
  | docDeleteBySourcePrefix (hit : Bytes → Bool)
  | load (failed : UInt64 → Bool)

section Step
variable (docId : Bytes)

/-- The ids of an ingest are minted for it: no block of another document has one. -/
def fresh (d : Document) (c : Contents) : Bool :=
  c.blocks.all fun r => !d.blockIds.contains r.blockId || r.docId == docId

/-- The next write of the ingest; a block that is refused ends the write phase. -/
def stepWrite (s : State) (i : IngestRun) (w : Write) (ws : List Write) : State :=
  if s.contents.accepts docId w then
    { s with
      contents := s.contents.write docId i.doc w
      ingest := some { i with todo := ws }
      ever := fun w' => w' = w ∨ s.ever w' }
  else { s with ingest := some { i with todo := [], error := some "block_insert failed" } }

def step (s : State) : Act → Option State
  | .docCreate =>
    if (s.contents.documents docId).isSome then none
    else some { s with contents := { s.contents with
      documents := Function.update s.contents.documents docId (some .pending) } }
  | .docUpdateStatus st =>
    if (s.contents.documents docId).isSome then
      some { s with contents := { s.contents with
        documents := Function.update s.contents.documents docId (some st) } }
    else some s
  | .beginWrite d a txn =>
    if s.ingest.isNone && !d.docId.isEmpty && Stores.cStr d.docId == docId && fresh docId d s.contents then
      some { s with ingest := some ⟨d, payload d txn, written (attempts d a), firstError (attempts d a)⟩ }
    else none
  | .write =>
    match s.ingest with
    | some i =>
      match i.todo with
      | w :: ws => some (stepWrite docId s i w ws)
      | [] => none
    | none => none
  | .endWrite logged failed =>
    match s.ingest with
    | some i =>
      if !i.todo.isEmpty then none
      else if !logged then some { s with ingest := none, pending := i.entry :: s.pending }
      else if i.error.isNone then some { s with ingest := none }
      else some { s with ingest := none, contents := s.contents.rollbackCallback failed i.entry }
    | none => none
  | .blockGetByDoc caller ok =>
    if s.deletion.isSome then none
    else some { s with deletion := some ⟨caller, if ok then s.contents.blockGetByDoc docId else [], false⟩ }
  | .markDelete ok =>
    match s.deletion with
    | some ⟨caller, b :: bs, swept⟩ =>
      some { s with
        contents := if ok then s.contents.markDelete b else s.contents
        deletion := some ⟨caller, bs, swept⟩ }
    | _ => none
  | .blockDeleteByDoc ok =>
    match s.deletion with
    | some ⟨.sweeper, [], false⟩ =>
      some { s with
        contents := if ok then s.contents.blockDeleteByDoc docId else s.contents
        deletion := some ⟨.sweeper, [], true⟩ }
    | _ => none
  | .docDelete ok =>
    match s.deletion with
    | some ⟨.importer, [], _⟩ | some ⟨.sweeper, [], true⟩ =>
      some { s with contents := if ok then s.contents.docDelete docId else s.contents, deletion := none }
    | _ => none
  | .docDeleteBySourcePrefix hit => some { s with contents := s.contents.docDeleteBySourcePrefix hit }
  | .load failed =>
    some { s with contents := s.contents.load failed s.opened, ingest := none, deletion := none, pending := [] }

def start (c : Contents) : State := { contents := c, ever := c.Belongs docId }

end Step

/-! ## What the callback takes away -/

/-- What an open transaction takes with it when it is rolled back. -/
def Undoes (failed : UInt64 → Bool) (e : PendingEntry) : Write → Prop
  | .row (.point l) => l ∈ e.blockIds ∧ failed l = false
  | .row (.parent _ x) | .row (.docFts x) => e.scope = .document ∧ e.docId ≠ [] ∧ x = Stores.cStr e.docId
  | _ => False

/-- `c'` is `c` with rows gone, a block only with its vector unless that failed, a label row only with its point. -/
structure Shrink (failed : UInt64 → Bool) (c c' : Contents) : Prop where
  documents : c'.documents = c.documents
  maxVariables : c'.maxVariables = c.maxVariables
  blocks : c'.blocks ⊆ c.blocks
  parents : c'.parents ⊆ c.parents
  docFts : c'.docFts ⊆ c.docFts
  labels : c'.labels ⊆ c.labels
  points : c'.points ⊆ c.points
  enrichState : c'.enrichState = c.enrichState
  sparseIndex : c'.sparseIndex = c.sparseIndex
  blockGone : ∀ r ∈ c.blocks, r ∈ c'.blocks ∨ r.blockId ∉ c'.points ∨ failed r.blockId = true
  labelGone : ∀ p ∈ c.labels, p ∈ c'.labels ∨ p.1 ∉ c'.points

variable {failed : UInt64 → Bool} {c c' c'' : Contents} {docId : Bytes} {w : Write} {e : PendingEntry}

theorem Contents.Holds.mono (hw : c'.Holds docId w) (hblocks : c'.blocks ⊆ c.blocks) (hparents : c'.parents ⊆ c.parents)
    (hdocFts : c'.docFts ⊆ c.docFts) (hlabels : c'.labels ⊆ c.labels) (hpoints : c'.points ⊆ c.points)
    (henrich : c'.enrichState ⊆ c.enrichState) (hsparse : c'.sparseIndex ⊆ c.sparseIndex) : c.Holds docId w := by
  match w with
  | .row (.block b) =>
    obtain ⟨r, hr, heq⟩ := hw
    exact ⟨r, hblocks hr, heq⟩
  | .row (.point l) => exact hpoints hw
  | .row (.parent p x) => exact hparents hw
  | .row (.docFts x) => exact hdocFts hw
  | .label l b => exact hlabels hw
  | .enrichState b => exact henrich hw
  | .sparse ch => exact hsparse hw

theorem Contents.Holds.of_thinned {documents : Bytes → Option DocStatus} {blocks : List BlockRow} {points : List UInt64}
    (hw : Contents.Holds docId { c with documents, blocks, points } w) (hblocks : blocks ⊆ c.blocks)
    (hpoints : points ⊆ c.points) : c.Holds docId w :=
  hw.mono hblocks (List.Subset.refl _) (List.Subset.refl _) (List.Subset.refl _) hpoints (List.Subset.refl _)
    (List.Subset.refl _)

namespace Shrink

theorem refl (failed : UInt64 → Bool) (c : Contents) : Shrink failed c c :=
  ⟨rfl, rfl, List.Subset.refl _, List.Subset.refl _, List.Subset.refl _, List.Subset.refl _, List.Subset.refl _, rfl,
    rfl, fun _ hr => Or.inl hr, fun _ hp => Or.inl hp⟩

theorem trans (h : Shrink failed c c') (h' : Shrink failed c' c'') : Shrink failed c c'' where
  documents := h'.documents.trans h.documents
  maxVariables := h'.maxVariables.trans h.maxVariables
  blocks := List.Subset.trans h'.blocks h.blocks
  parents := List.Subset.trans h'.parents h.parents
  docFts := List.Subset.trans h'.docFts h.docFts
  labels := List.Subset.trans h'.labels h.labels
  points := List.Subset.trans h'.points h.points
  enrichState := h'.enrichState.trans h.enrichState
  sparseIndex := h'.sparseIndex.trans h.sparseIndex
  blockGone r hr := by
    rcases h.blockGone r hr with hkept | hgone | hfailed
    · exact h'.blockGone r hkept
    · exact Or.inr (Or.inl fun hmem => hgone (h'.points hmem))
    · exact Or.inr (Or.inr hfailed)
  labelGone p hp := by
    rcases h.labelGone p hp with hkept | hgone
    · exact h'.labelGone p hkept
    · exact Or.inr fun hmem => hgone (h'.points hmem)

theorem holds (h : Shrink failed c c') (hw : c'.Holds docId w) : c.Holds docId w :=
  hw.mono h.blocks h.parents h.docFts h.labels h.points (fun _ => (h.enrichState ▸ ·)) fun _ => (h.sparseIndex ▸ ·)

theorem allStoresHave (h : Shrink failed c c') (hinc : c.stores.allStoresHave e = false) :
    c'.stores.allStoresHave e = false := by
  -- the check does not read the label rows
  have hshrunk : Stores.Shrunk { c'.stores with labels := c.stores.labels } c.stores := by
    refine ⟨fun {r} hr => ?_, id, rfl, h.maxVariables⟩
    cases r with
    | block b =>
      obtain ⟨r, hr, heq⟩ := List.any_eq_true.mp hr
      exact List.any_eq_true.mpr ⟨r, h.blocks hr, heq⟩
    | point l => exact List.contains_iff_mem.mpr (h.points (List.contains_iff_mem.mp hr))
    | parent p x => exact List.contains_iff_mem.mpr (h.parents (List.contains_iff_mem.mp hr))
    | docFts x => exact List.contains_iff_mem.mpr (h.docFts (List.contains_iff_mem.mp hr))
  refine Bool.eq_false_iff.mpr fun hall => ?_
  rw [hshrunk.allStoresHave hall] at hinc
  cases hinc

end Shrink

theorem shrink_rollbackCallback (failed : UInt64 → Bool) (c : Contents) (e : PendingEntry) :
    Shrink failed c (c.rollbackCallback failed e) where
  documents := rfl
  maxVariables := rfl
  blocks := by
    unfold Contents.rollbackCallback
    split
    · exact List.filter_subset_self _
    · exact List.Subset.refl _
  parents := by
    unfold Contents.rollbackCallback
    dsimp only
    split
    · exact List.filter_subset_self _
    · exact List.Subset.refl _
  docFts := by
    unfold Contents.rollbackCallback
    dsimp only
    split
    · exact List.filter_subset_self _
    · exact List.Subset.refl _
  labels := List.filter_subset_self _
  points := List.filter_subset_self _
  enrichState := rfl
  sparseIndex := rfl
  blockGone r hr := by
    by_cases hids : e.blockIds.contains r.blockId = true
    · refine Or.inr (or_iff_not_imp_right.mpr fun hok hmem => ?_)
      have hkept := (mem_deleteWhere.mp hmem).2
      rw [hids, Bool.true_or, Bool.true_and, Bool.not_eq_false'] at hkept
      exact hok hkept
    · left
      unfold Contents.rollbackCallback
      split
      · exact mem_deleteWhere.mpr ⟨hr, Bool.eq_false_iff.mpr hids⟩
      · exact hr
  labelGone p hp := by
    refine or_iff_not_imp_right.mpr fun hlive => mem_deleteWhere.mpr ⟨hp, ?_⟩
    have hkept := (mem_deleteWhere.mp (not_not.mp hlive)).2
    rw [Bool.and_eq_false_iff] at hkept ⊢
    exact hkept.imp_left fun h => (Bool.or_eq_false_iff.mp h).2

theorem contains_deleteWhere {α : Type} [BEq α] [LawfulBEq α] {p : α → Bool} {t : List α} {x : α} :
    (deleteWhere p t).contains x = (t.contains x && !p x) := by
  rw [Bool.eq_iff_iff, Bool.and_eq_true, Bool.not_eq_true', List.contains_iff_mem, List.contains_iff_mem,
    mem_deleteWhere]

theorem contains_contextualOf (hkey : Keyed Prod.fst c.labels) (ids : List UInt64) (l : UInt64) :
    (c.contextualOf ids).contains l =
      (decide (ids.length ≤ c.maxVariables) && (c.stores.labels l).any ids.contains) := by
  have hrow : ((c.labels.filter fun p => ids.contains p.2).map Prod.fst).contains l =
      (c.stores.labels l).any ids.contains := by
    rw [Bool.eq_iff_iff, List.contains_iff_mem, List.mem_map, Option.any_eq_true]
    constructor
    · rintro ⟨p, hp, rfl⟩
      obtain ⟨hp, hids⟩ := List.mem_filter.mp hp
      exact ⟨p.2, congrArg (Option.map Prod.snd) (hkey.lookup_of_mem hp), hids⟩
    · rintro ⟨b, hb, hids⟩
      obtain ⟨p, hp, rfl⟩ := Option.map_eq_some_iff.mp hb
      have hp : lookup Prod.fst l c.labels = some p := hp
      obtain ⟨hmem, hl⟩ := lookup_eq_some hp
      exact ⟨p, List.mem_filter.mpr ⟨hmem, hids⟩, hl⟩
  unfold Contents.contextualOf Contents.fits
  cases decide (ids.length ≤ c.maxVariables)
  · rfl
  · rw [if_pos rfl, hrow, Bool.true_and]

/-- The callback is the cleanup that the coordinator stands on. -/
theorem rows_rollbackCallback (hkey : Keyed Prod.fst c.labels) (failed : UInt64 → Bool) (e : PendingEntry) (r : Row) :
    (c.rollbackCallback failed e).stores.rows r =
      (c.stores.cleanup e fun r => match r with | .point l => failed l | _ => false).rows r := by
  cases r with
  | block b =>
    show ((c.rollbackCallback failed e).blocks.any (·.blockId == b)) =
      (c.blocks.any (·.blockId == b) && !(decide (e.blockIds.length ≤ c.maxVariables) && e.blockIds.contains b && true))
    unfold Contents.rollbackCallback Contents.fits
    cases decide (e.blockIds.length ≤ c.maxVariables)
    · simp
    · rw [if_pos rfl, Bool.true_and, Bool.and_true, Bool.eq_iff_iff, Bool.and_eq_true, List.any_eq_true,
        List.any_eq_true]
      constructor
      · rintro ⟨r, hr, heq⟩
        obtain ⟨hr, hids⟩ := mem_deleteWhere.mp hr
        rw [← beq_iff_eq.mp heq]
        exact ⟨⟨r, hr, beq_self_eq_true _⟩, by rw [hids]; rfl⟩
      · rintro ⟨⟨r, hr, heq⟩, hids⟩
        rw [← beq_iff_eq.mp heq, Bool.not_eq_true'] at hids
        exact ⟨r, mem_deleteWhere.mpr ⟨hr, hids⟩, heq⟩
  | point l =>
    show (deleteWhere _ c.points).contains l = (c.points.contains l && !((e.blockIds.contains l ||
      decide (e.blockIds.length ≤ c.maxVariables) && (c.stores.labels l).any e.blockIds.contains) && !failed l))
    rw [contains_deleteWhere, contains_contextualOf hkey]
  | parent p x =>
    show (if e.scope == .document && !e.docId.isEmpty then _ else c.parents).contains (p, x) =
      (c.parents.contains (p, x) && !((e.scope == .document && !e.docId.isEmpty && x == Stores.cStr e.docId) && true))
    cases e.scope == .document && !e.docId.isEmpty
    · simp
    · rw [if_pos rfl, contains_deleteWhere, Bool.true_and, Bool.and_true]
  | docFts x =>
    show (if e.scope == .document && !e.docId.isEmpty then _ else c.docFts).contains x =
      (c.docFts.contains x && !((e.scope == .document && !e.docId.isEmpty && x == Stores.cStr e.docId) && true))
    cases e.scope == .document && !e.docId.isEmpty
    · simp
    · rw [if_pos rfl, contains_deleteWhere, Bool.true_and, Bool.and_true]

theorem rollbackCallback_undoes (hundo : Undoes failed e w) : ¬ (c.rollbackCallback failed e).Holds docId w := by
  intro hw
  match w with
  | .row (.point l) =>
    obtain ⟨hids, hok⟩ := hundo
    have hkept := (mem_deleteWhere.mp hw).2
    rw [List.contains_iff_mem.mpr hids, hok] at hkept
    cases hkept
  | .row (.parent p x) =>
    obtain ⟨hscope, hid, rfl⟩ := hundo
    have hscoped : (e.scope == .document && !e.docId.isEmpty) = true := by simp [hscope, hid]
    simp only [Contents.Holds, Contents.rollbackCallback, hscoped, if_true, mem_deleteWhere] at hw
    simp at hw
  | .row (.docFts x) =>
    obtain ⟨hscope, hid, rfl⟩ := hundo
    have hscoped : (e.scope == .document && !e.docId.isEmpty) = true := by simp [hscope, hid]
    simp only [Contents.Holds, Contents.rollbackCallback, hscoped, if_true, mem_deleteWhere] at hw
    simp at hw

/-! ## The transactions that a load finds open -/

theorem shrink_settle (failed : UInt64 → Bool) (c : Contents) (e : PendingEntry) :
    Shrink failed c (c.settle failed e) := by
  unfold Contents.settle
  split
  · exact Shrink.refl failed c
  · exact shrink_rollbackCallback failed c e

theorem shrink_recover (failed : UInt64 → Bool) (c : Contents) (opened : List PendingEntry) :
    Shrink failed c (c.recover failed opened) := by
  induction opened generalizing c with
  | nil => exact Shrink.refl failed c
  | cons e es ih =>
    exact (shrink_settle failed c e).trans (ih _)

/-- What an incomplete transaction covers is gone after `Recover`. -/
theorem recover_undoes {opened : List PendingEntry} (he : e ∈ opened) (hinc : c.stores.allStoresHave e = false)
    (hundo : Undoes failed e w) : ¬ (c.recover failed opened).Holds docId w := by
  induction opened generalizing c with
  | nil => cases he
  | cons e' es ih =>
    rcases List.mem_cons.mp he with rfl | he
    · intro hw
      have hsettle : c.settle failed e = c.rollbackCallback failed e := if_neg (Bool.eq_false_iff.mp hinc)
      have hfirst : (c.settle failed e).Holds docId w := (shrink_recover failed _ es).holds hw
      rw [hsettle] at hfirst
      exact rollbackCallback_undoes hundo hfirst
    · exact ih he ((shrink_settle failed c e').allStoresHave hinc)

end Cortrix.Catalog.HardDeletion
