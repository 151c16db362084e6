import Cortrix.Spc.IngestWriteSet
import Cortrix.Store.WriteCoordinator

/-!
# A failed ingest and its rollback

`ProcessParsed` writes seven stores one after the other between `BeginWrite` and `Commit`. The first step that fails
makes it call `Rollback` and return -1; the compensation is the one callback of the namespace pool.

* `nothing_left_iff` : a failed ingest leaves nothing behind exactly if it is `Undoable`; `sidecars_left`.
-/

namespace Cortrix.Spc.FailedIngest
open Lib
open Cortrix.Store (Row Stores)
open Cortrix.Store.WriteCoordinator (Tables AppendOutcome Call State emptyStores rollbackPayload writeFailed reply step)
open Ingest (ChildBlock EmbeddedBlock ParsedDoc processParsed)

/-! ## The stores -/

/-- One row of the seven stores, or a live point. -/
inductive Write
  | row (r : Row)
  /-- `contextual_vec_labels`: a label and its block. -/
  | label (label block : UInt64)
  | enrichState (block : UInt64)
  /-- `sparse_inverted_index`: the postings of a child. -/
  | sparse (childId : Bytes)
  deriving DecidableEq

structure UnitStores where
  stores : Stores
  /-- The blocks with a row of `enrich_state`. -/
  enrichState : UInt64 → Bool := fun _ => false
  /-- The children with postings. -/
  sparseIndex : Bytes → Bool := fun _ => false

namespace UnitStores

def write (u : UnitStores) : Write → UnitStores
  | .row r => { u with stores := { u.stores with rows := Function.update u.stores.rows r true } }
  | .label l b => { u with stores := { u.stores with labels := Function.update u.stores.labels l (some b) } }
  | .enrichState b => { u with enrichState := Function.update u.enrichState b true }
  | .sparse c => { u with sparseIndex := Function.update u.sparseIndex c true }

def holds (u : UnitStores) : Write → Bool
  | .row r => u.stores.rows r
  | .label l _ => (u.stores.labels l).isSome
  | .enrichState b => u.enrichState b
  | .sparse c => u.sparseIndex c

def writeAll (u : UnitStores) (ws : List Write) : UnitStores := ws.foldl write u

end UnitStores

/-! ## What is stored -/

/-- A chunk with its own id and its sparse vector. -/
structure Child extends ChildBlock where
  childId : Bytes
  /-- It has active sparse terms. -/
  sparse : Bool := false

/-- A parsed document as the stages before the write phase have left it. -/
structure Document where
  docId : Bytes
  level : UInt8 := 3
  children : List Child := []
  hype : List EmbeddedBlock := []
  metaBlock : Option EmbeddedBlock := none
  parents : List Bytes := []
  enrichStageRan : Bool := false
  sparseRegistry : Bool := false

/-- How the stores answer, each statement by its place among its like; an error comes with its text. -/
structure Answers where
  docFts : Option String := none
  label : Nat → Bool := fun _ => true
  /-- The error of `AddPoints` with the points that are in the index nevertheless. -/
  addPoints : Option (String × (UInt64 → Bool)) := none
  parent : Nat → Bool := fun _ => true
  block : Nat → Bool := fun _ => true
  /-- The rowid SQLite gives a block without an id. -/
  rowid : Nat → UInt64 := fun _ => 0
  enrichState : Nat → Bool := fun _ => true
  sparse : Nat → Bool := fun _ => true
  begin : AppendOutcome := .ok
  rollback : AppendOutcome := .ok

namespace Document
variable (d : Document)

def parsed (unlabeled : List UInt64) : ParsedDoc :=
  { docId := d.docId, level := d.level, children := d.children.map Child.toChildBlock, hype := d.hype
    metaBlock := d.metaBlock, parents := d.parents, unlabeled }

/-- `child_blocks`: the block ids, each with the child it stands for, if any. -/
def childBlocks : List (UInt64 × Option Child) :=
  d.children.map (fun c => (c.blockId, some c)) ++ (d.parsed []).hypeBlocks.map (fun h => (h.blockId, none)) ++
    d.metaBlock.toList.map fun m => (m.blockId, none)

def blockIds : List UInt64 := d.childBlocks.map Prod.fst

def labelRows : List (UInt64 × UInt64) := (d.parsed []).children.flatMap (ChildBlock.labelRows d.level)

def unlabeled (a : Answers) : List UInt64 := (d.labelRows.zipIdx.filter fun r => !a.label r.2).map fun r => r.1.1

def vecPoints (a : Answers) : List UInt64 := (processParsed (d.parsed (d.unlabeled a))).vecPoints

end Document

/-! ## The write phase -/

/-- A step of the write phase: what it leaves in the stores, and the error with which `ProcessParsed` gives up. -/
structure Attempt where
  lands : List Write := []
  error : Option String := none

/-- What the steps leave, up to the first that fails. -/
def written : List Attempt → List Write
  | [] => []
  | t :: rest => t.lands ++ if t.error.isSome then [] else written rest

def firstError (ts : List Attempt) : Option String := ts.findSome? Attempt.error

section Attempts
variable (d : Document) (a : Answers)

def upsertDocFts5Row : Attempt :=
  if d.docId.isEmpty then
    { error := some ("doc_fts5_index upsert failed: CX_ERR_F41_FTS5_FALLBACK_FAILED: " ++
        "Upsert doc_fts5_index requires doc_id") }
  else match a.docFts with
  | some err => { error := some ("doc_fts5_index upsert failed: " ++ err) }
  | none => { lands := [.row (.docFts (Stores.cStr d.docId))] }

/-- `WriteContextualVecLabel`: a failure only leaves the point out. -/
def writeLabel (r : (UInt64 × UInt64) × Nat) : Attempt := { lands := if a.label r.2 then [.label r.1.1 r.1.2] else [] }

def addPoints : Attempt :=
  match a.addPoints with
  | none => { lands := (d.vecPoints a).map fun l => .row (.point l) }
  | some (err, landed) =>
    { lands := ((d.vecPoints a).filter landed).map fun l => .row (.point l), error := some ("AddPoints: " ++ err) }

def parentInsert (p : Bytes × Nat) : Attempt :=
  if a.parent p.2 then { lands := [.row (.parent p.1 (Stores.cStr d.docId))] }
  else { error := some "parent_insert failed" }

/-- The id under which a block gets into the table. -/
def insertedId (b : (UInt64 × Option Child) × Nat) : UInt64 := if b.1.1 = 0 then a.rowid b.2 else b.1.1

/-- The rows of a child beside its block: its postings and its `enrich_state` row, each written or given up. -/
def sidecars (b : (UInt64 × Option Child) × Nat) : List Write :=
  match b.1.2 with
  | none => []
  | some c =>
    if c.childId.isEmpty then [] else
      (if d.sparseRegistry && c.sparse && a.sparse b.2 then [.sparse (Stores.cStr c.childId)] else []) ++
        if d.enrichStageRan && a.enrichState b.2 then [.enrichState (insertedId a b)] else []

def blockInsert (b : (UInt64 × Option Child) × Nat) : Attempt :=
  if a.block b.2 then { lands := .row (.block (insertedId a b)) :: sidecars d a b }
  else { error := some "block_insert failed" }

/-- The document's full-text row comes first, then the label rows: the rollback needs both. -/
def labelled : List Attempt :=
  (if d.metaBlock.isSome then [upsertDocFts5Row d a] else []) ++ d.labelRows.zipIdx.map (writeLabel a)

def beforeBlocks : List Attempt :=
  labelled d a ++ (if (d.vecPoints a).isEmpty then [] else [addPoints d a]) ++ d.parents.zipIdx.map (parentInsert d a)

/-- The steps between `BeginWrite` and `Commit`. -/
def attempts : List Attempt := beforeBlocks d a ++ d.childBlocks.zipIdx.map (blockInsert d a)

end Attempts

/-! ## ProcessParsed from BeginWrite on -/

structure UnitState where
  tables : Tables
  unit : UnitStores

/-- `Rollback`, every deletion of its callback that can be prepared succeeding. -/
def rollback (s : UnitState) (txn : UInt64) (o : AppendOutcome) : UnitState :=
  match s.tables.checkAndMarkFinalizing txn .rollback with
  | .error _ => s
  | .ok (orig, tables) =>
    match o with
    | .failed .. => { s with tables }
    | .ok =>
      { tables := tables.releaseDoc orig.docId
        unit := { s.unit with stores := s.unit.stores.cleanup (rollbackPayload txn orig) fun _ => false } }

/-- The write phase with the error it returns -1 for; without one `Commit` follows. -/
def ingest (s : UnitState) (d : Document) (a : Answers) : UnitState × Option String :=
  match s.tables.reserve d.docId d.blockIds .document with
  | .error st => (s, some ("BeginWrite: " ++ st.message))
  | .ok (txn, tables) =>
    match a.begin with
    | .failed _ err =>
      ({ s with tables := tables.undo txn d.docId },
        some ("BeginWrite: " ++ (writeFailed ("append PENDING failed: " ++ err)).message))
    | .ok =>
      let s : UnitState := { tables, unit := s.unit.writeAll (written (attempts d a)) }
      match firstError (attempts d a) with
      | none => (s, none)
      | some err => (rollback s txn a.rollback, some err)

/-! ## The property and its condition -/

section Property
variable (d : Document) (a : Answers)

/-- Nothing the run has written is left, and a new `BeginWrite` of the document is accepted. -/
structure NothingLeft (s : UnitState) : Prop where
  gone : ∀ w ∈ written (attempts d a), s.unit.holds w = false
  free : ∀ blockIds scope, ∃ r, s.tables.reserve d.docId blockIds scope = .ok r

def labelRowsWritten : List ((UInt64 × UInt64) × Nat) :=
  if d.metaBlock.isSome && (upsertDocFts5Row d a).error.isSome then []
  else d.labelRows.zipIdx.filter fun r => a.label r.2

def inserted : List ((UInt64 × Option Child) × Nat) :=
  if (firstError (beforeBlocks d a)).isSome then [] else d.childBlocks.zipIdx.takeWhile fun b => a.block b.2

/-- The condition: the ROLLBACK record is appended, the document has an id, every inserted block stands under an id of
the list and has nothing beside it, and the list fits into a statement unless nothing that needs one was written. -/
structure Undoable (limit : Nat) : Prop where
  logged : a.rollback = .ok
  named : d.docId ≠ []
  listed : ∀ b ∈ inserted d a, insertedId a b ∈ d.blockIds
  bare : ∀ b ∈ inserted d a, sidecars d a b = []
  fits : d.blockIds.length ≤ limit ∨ labelRowsWritten d a = [] ∧ inserted d a = []

/-- What the callback takes away of the rows of a run. -/
def Covered (limit : Nat) : Write → Prop
  | .row (.block id) => d.blockIds.length ≤ limit ∧ id ∈ d.blockIds
  | .row (.point l) => l ∈ d.blockIds ∨ d.blockIds.length ≤ limit
  | .row (.parent ..) | .row (.docFts _) => True
  | .label .. => d.blockIds.length ≤ limit
  | .enrichState _ | .sparse _ => False

end Property

variable {d : Document} {a : Answers} {s : UnitState} {u : UnitStores} {ws : List Write} {w : Write} {l b : UInt64}
  {limit : Nat}

/-! ## The stores after a list of writes -/

namespace UnitStores

theorem holds_write_self : (u.write w).holds w = true := by
  cases w <;> simp [write, holds]

theorem holds_write {w' : Write} (h : u.holds w = true) : (u.write w').holds w = true := by
  cases w <;> cases w' <;> simp only [write, holds] at h ⊢ <;> try exact h
  all_goals
    rw [Function.update_apply]
    split
    · rfl
    · exact h

theorem holds_writeAll (h : u.holds w = true) : (u.writeAll ws).holds w = true := by
  induction ws generalizing u with
  | nil => exact h
  | cons w' ws ih => exact ih (holds_write h)

theorem holds_of_mem (h : w ∈ ws) : (u.writeAll ws).holds w = true := by
  induction ws generalizing u with
  | nil => cases h
  | cons w' ws ih =>
    rcases List.mem_cons.mp h with rfl | hmem
    · exact holds_writeAll (u := u.write w) holds_write_self
    · exact ih hmem

theorem maxVariables_writeAll : (u.writeAll ws).stores.maxVariables = u.stores.maxVariables := by
  induction ws generalizing u with
  | nil => rfl
  | cons w ws ih =>
    rw [show u.writeAll (w :: ws) = (u.write w).writeAll ws from rfl, ih]
    cases w <;> rfl

theorem labels_of_notMem (h : ∀ b, .label l b ∉ ws) : (u.writeAll ws).stores.labels l = u.stores.labels l := by
  induction ws generalizing u with
  | nil => rfl
  | cons w ws ih =>
    rw [show u.writeAll (w :: ws) = (u.write w).writeAll ws from rfl, ih fun b hb => h b (List.mem_cons_of_mem _ hb)]
    cases w with
    | label l' b' =>
      have hne : l ≠ l' := by
        rintro rfl
        exact h b' List.mem_cons_self
      exact Function.update_of_ne hne _ _
    | _ => rfl

theorem labels_of_mem (h : .label l b ∈ ws) :
    ∃ b', (u.writeAll ws).stores.labels l = some b' ∧ .label l b' ∈ ws := by
  induction ws generalizing u b with
  | nil => cases h
  | cons w ws ih =>
    by_cases hlater : ∃ b', .label l b' ∈ ws
    · obtain ⟨b', hb'⟩ := hlater
      obtain ⟨b'', heq, hmem⟩ := ih (u := u.write w) hb'
      exact ⟨b'', heq, List.mem_cons_of_mem _ hmem⟩
    · push Not at hlater
      rcases List.mem_cons.mp h with rfl | hmem
      · refine ⟨b, ?_, List.mem_cons_self⟩
        rw [show u.writeAll (.label l b :: ws) = (u.write (.label l b)).writeAll ws from rfl, labels_of_notMem hlater]
        exact Function.update_self _ _ _
      · exact absurd hmem (hlater b)

end UnitStores

/-! ## What a list of steps leaves -/

theorem written_append (A B : List Attempt) :
    written (A ++ B) = written A ++ if (firstError A).isSome then [] else written B := by
  induction A with
  | nil => rfl
  | cons t A ih =>
    cases herr : t.error with
    | none => simp [written, firstError, herr, ih]
    | some err => simp [written, firstError, herr]

theorem mem_written {ts : List Attempt} (h : w ∈ written ts) : ∃ t ∈ ts, w ∈ t.lands := by
  induction ts with
  | nil => cases h
  | cons t ts ih =>
    rcases List.mem_append.mp h with h | h
    · exact ⟨t, List.mem_cons_self, h⟩
    · split at h
      · cases h
      · obtain ⟨t', hmem, hw⟩ := ih h
        exact ⟨t', List.mem_cons_of_mem _ hmem, hw⟩

theorem written_of_noError {ts : List Attempt} (h : ∀ t ∈ ts, t.error = none) :
    written ts = ts.flatMap Attempt.lands ∧ firstError ts = none := by
  refine ⟨?_, List.findSome?_eq_none_iff.mpr h⟩
  induction ts with
  | nil => rfl
  | cons t ts ih =>
    rw [written, h t List.mem_cons_self, ih fun t' ht' => h t' (List.mem_cons_of_mem _ ht')]
    rfl

theorem writeLabel_error : ∀ t ∈ d.labelRows.zipIdx.map (writeLabel a), t.error = none := by
  intro t ht
  obtain ⟨r, -, rfl⟩ := List.mem_map.mp ht
  rfl

theorem firstError_labelled :
    (firstError (labelled d a)).isSome = (d.metaBlock.isSome && (upsertDocFts5Row d a).error.isSome) := by
  have hrows := (written_of_noError (writeLabel_error (d := d) (a := a))).2
  unfold firstError at hrows
  unfold firstError labelled
  rw [List.findSome?_append, hrows]
  cases d.metaBlock <;> simp

theorem mem_labelled : w ∈ written (labelled d a) ↔
    (d.metaBlock.isSome = true ∧ w ∈ (upsertDocFts5Row d a).lands) ∨
      ∃ r ∈ labelRowsWritten d a, Write.label r.1.1 r.1.2 = w := by
  have hrows : written (d.labelRows.zipIdx.map (writeLabel a)) =
      (d.labelRows.zipIdx.filter fun r => a.label r.2).map fun r => .label r.1.1 r.1.2 := by
    rw [(written_of_noError writeLabel_error).1, List.flatMap_map]
    induction d.labelRows.zipIdx with
    | nil => rfl
    | cons r rs ih =>
      rw [List.flatMap_cons, ih, List.filter_cons, writeLabel]
      split <;> rfl
  unfold labelled labelRowsWritten
  rw [written_append, hrows]
  cases d.metaBlock with
  | none => simp [written, firstError]
  | some m =>
    cases herr : (upsertDocFts5Row d a).error with
    | none => simp [written, firstError, herr]
    | some err => simp [written, firstError, herr]

namespace Document

theorem blockIds_eq (unlabeled : List UInt64) : (processParsed (d.parsed unlabeled)).blockIds = d.blockIds := by
  simp only [processParsed, parsed, blockIds, childBlocks, List.map_append, List.map_map]
  rfl

theorem mem_labelRows {r : UInt64 × UInt64} (h : r ∈ d.labelRows) : r.2 ∈ d.blockIds := by
  obtain ⟨c, hc, hr⟩ := List.mem_flatMap.mp h
  unfold ChildBlock.labelRows at hr
  split at hr
  · obtain ⟨l, -, rfl⟩ := List.mem_map.mp hr
    rw [← blockIds_eq []]
    exact List.mem_append_left _ (List.mem_append_left _ (List.mem_map_of_mem hc))
  · cases hr

theorem mem_collectedPoints {unlabeled : List UInt64} (h : l ∈ (d.parsed unlabeled).collectedPoints) :
    l ∈ d.blockIds ∨ ∃ r ∈ d.labelRows, r.1 = l := by
  rw [← blockIds_eq unlabeled]
  unfold ParsedDoc.collectedPoints at h
  rcases List.mem_append.mp h with h | h
  · rcases List.mem_append.mp h with h | h
    · obtain ⟨c, hc, hl⟩ := List.mem_flatMap.mp h
      unfold ChildBlock.points at hl
      rcases List.mem_append.mp hl with hl | hl
      · refine Or.inl (List.mem_append_left _ (List.mem_append_left _ (List.mem_map.mpr ⟨c, hc, ?_⟩)))
        split at hl
        · exact (List.mem_singleton.mp hl).symm
        · cases hl
      · refine Or.inr ⟨(l, c.blockId), List.mem_flatMap.mpr ⟨c, hc, ?_⟩, rfl⟩
        unfold ChildBlock.labelRows
        split at hl
        · rename_i hgate
          rw [if_pos (show Ingest.indexPointsExpected d.level c.skipIndex = true from hgate)]
          exact List.mem_map.mpr ⟨l, hl, rfl⟩
        · cases hl
    · obtain ⟨m, hm, hl⟩ := List.mem_flatMap.mp h
      refine Or.inl (List.mem_append_left _ (List.mem_append_right _ (List.mem_map.mpr ⟨m, hm, ?_⟩)))
      exact congrArg Prod.fst (EmbeddedBlock.mem_points.mp hl)
  · unfold ParsedDoc.metaPoints at h
    split at h
    · obtain ⟨m, hm, hl⟩ := List.mem_flatMap.mp h
      refine Or.inl (List.mem_append_right _ (List.mem_map.mpr ⟨m, hm, ?_⟩))
      exact congrArg Prod.fst (EmbeddedBlock.mem_points.mp hl)
    · cases h

theorem mem_vecPoints (h : l ∈ d.vecPoints a) (herr : (firstError (labelled d a)).isSome = false) :
    l ∈ d.blockIds ∨ ∃ r ∈ labelRowsWritten d a, r.1.1 = l := by
  obtain ⟨hcollected, hlabeled⟩ := List.mem_filter.mp h
  refine (mem_collectedPoints hcollected).imp_right fun ⟨r, hr, hl⟩ => ?_
  obtain ⟨i, hi⟩ := List.mem_iff_getElem?.mp hr
  have hplace : (r, i) ∈ d.labelRows.zipIdx := List.mk_mem_zipIdx_iff_getElem?.mpr hi
  refine ⟨(r, i), ?_, hl⟩
  have hlands : a.label i = true := by
    by_contra hnot
    have hmem : l ∈ d.unlabeled a :=
      List.mem_map.mpr ⟨(r, i), List.mem_filter.mpr ⟨hplace, by simpa using hnot⟩, hl⟩
    rw [Bool.not_eq_true', Bool.eq_false_iff] at hlabeled
    exact hlabeled (List.contains_iff_mem.mpr hmem)
  unfold labelRowsWritten
  rw [← firstError_labelled, herr, if_neg Bool.false_ne_true]
  exact List.mem_filter.mpr ⟨hplace, hlands⟩

end Document

theorem mem_beforeBlocks (h : w ∈ written (beforeBlocks d a)) :
    w = .row (.docFts (Stores.cStr d.docId)) ∨ (∃ r ∈ labelRowsWritten d a, Write.label r.1.1 r.1.2 = w) ∨
      (∃ l ∈ d.vecPoints a, (firstError (labelled d a)).isSome = false ∧ w = .row (.point l)) ∨
        ∃ p, w = .row (.parent p (Stores.cStr d.docId)) := by
  unfold beforeBlocks at h
  rw [List.append_assoc, written_append] at h
  rcases List.mem_append.mp h with h | h
  · rcases mem_labelled.mp h with ⟨-, hfts⟩ | hrow
    · left
      unfold upsertDocFts5Row at hfts
      split at hfts
      · cases hfts
      · split at hfts
        · cases hfts
        · exact List.mem_singleton.mp hfts
    · exact Or.inr (Or.inl hrow)
  · split at h
    · cases h
    rename_i herr
    obtain ⟨t, ht, hw⟩ := mem_written h
    rcases List.mem_append.mp ht with ht | ht
    · split at ht
      · cases ht
      · rw [List.mem_singleton.mp ht] at hw
        unfold addPoints at hw
        split at hw
        · obtain ⟨l, hl, rfl⟩ := List.mem_map.mp hw
          exact Or.inr (Or.inr (Or.inl ⟨l, hl, Bool.eq_false_iff.mpr herr, rfl⟩))
        · obtain ⟨l, hl, rfl⟩ := List.mem_map.mp hw
          exact Or.inr (Or.inr (Or.inl ⟨l, (List.mem_filter.mp hl).1, Bool.eq_false_iff.mpr herr, rfl⟩))
    · obtain ⟨p, -, rfl⟩ := List.mem_map.mp ht
      unfold parentInsert at hw
      split at hw
      · exact Or.inr (Or.inr (Or.inr ⟨p.1, List.mem_singleton.mp hw⟩))
      · cases hw

theorem written_attempts : written (attempts d a) =
    written (beforeBlocks d a) ++
      (inserted d a).flatMap fun b => .row (.block (insertedId a b)) :: sidecars d a b := by
  have hblocks (bs : List ((UInt64 × Option Child) × Nat)) : written (bs.map (blockInsert d a)) =
      (bs.takeWhile fun b => a.block b.2).flatMap fun b => .row (.block (insertedId a b)) :: sidecars d a b := by
    induction bs with
    | nil => rfl
    | cons b bs ih =>
      rw [List.map_cons, written, ih, List.takeWhile_cons]
      unfold blockInsert
      cases a.block b.2 <;> simp
  unfold attempts inserted
  rw [written_append, hblocks]
  split <;> simp

theorem label_written {r : (UInt64 × UInt64) × Nat} (h : r ∈ labelRowsWritten d a) :
    .label r.1.1 r.1.2 ∈ written (attempts d a) := by
  rw [written_attempts]
  unfold beforeBlocks
  rw [List.append_assoc, written_append]
  exact List.mem_append_left _ (List.mem_append_left _ (mem_labelled.mpr (Or.inr ⟨r, h, rfl⟩)))

theorem mem_sidecars {b : (UInt64 × Option Child) × Nat} (h : w ∈ sidecars d a b) :
    (∃ c, w = .sparse c) ∨ w = .enrichState (insertedId a b) := by
  unfold sidecars at h
  split at h
  · cases h
  split at h
  · cases h
  rcases List.mem_append.mp h with h | h
  · split at h
    · exact Or.inl ⟨_, List.mem_singleton.mp h⟩
    · cases h
  · split at h
    · exact Or.inr (List.mem_singleton.mp h)
    · cases h

/-- The rows of a run name its document and its blocks, and a point under a label has its label row. -/
structure Shaped (d : Document) (ws : List Write) : Prop where
  docFts : ∀ x, .row (.docFts x) ∈ ws → x = Stores.cStr d.docId
  parent : ∀ p x, .row (.parent p x) ∈ ws → x = Stores.cStr d.docId
  label : ∀ l b, .label l b ∈ ws → b ∈ d.blockIds
  point : ∀ l, .row (.point l) ∈ ws → l ∈ d.blockIds ∨ ∃ b, .label l b ∈ ws

theorem labelRowsWritten_block {r : (UInt64 × UInt64) × Nat} (h : r ∈ labelRowsWritten d a) : r.1.2 ∈ d.blockIds := by
  unfold labelRowsWritten at h
  split at h
  · cases h
  · exact Document.mem_labelRows (List.fst_mem_of_mem_zipIdx (List.mem_filter.mp h).1)

theorem shaped (d : Document) (a : Answers) : Shaped d (written (attempts d a)) := by
  have hcases {w : Write} (h : w ∈ written (attempts d a)) :
      w ∈ written (beforeBlocks d a) ∨ (∃ id, w = .row (.block id)) ∨ (∃ c, w = .sparse c) ∨
        ∃ b, w = .enrichState b := by
    rw [written_attempts] at h
    refine (List.mem_append.mp h).imp_right fun h => ?_
    obtain ⟨b, -, hw⟩ := List.mem_flatMap.mp h
    rcases List.mem_cons.mp hw with hw | hw
    · exact Or.inl ⟨_, hw⟩
    · exact Or.inr ((mem_sidecars hw).imp_right fun h => ⟨_, h⟩)
  refine ⟨fun x h => ?_, fun p x h => ?_, fun l b h => ?_, fun l h => ?_⟩
  · rcases hcases h with h | ⟨_, ⟨⟩⟩ | ⟨_, ⟨⟩⟩ | ⟨_, ⟨⟩⟩
    rcases mem_beforeBlocks h with heq | ⟨_, _, ⟨⟩⟩ | ⟨_, _, _, ⟨⟩⟩ | ⟨_, ⟨⟩⟩
    injection heq with heq
    injection heq
  · rcases hcases h with h | ⟨_, ⟨⟩⟩ | ⟨_, ⟨⟩⟩ | ⟨_, ⟨⟩⟩
    rcases mem_beforeBlocks h with heq | ⟨_, _, ⟨⟩⟩ | ⟨_, _, _, ⟨⟩⟩ | ⟨_, heq⟩
    · cases heq
    · injection heq with heq
      injection heq
  · rcases hcases h with h | ⟨_, ⟨⟩⟩ | ⟨_, ⟨⟩⟩ | ⟨_, ⟨⟩⟩
    rcases mem_beforeBlocks h with heq | ⟨r, hr, heq⟩ | ⟨_, _, _, ⟨⟩⟩ | ⟨_, ⟨⟩⟩
    · cases heq
    · injection heq with _ hb
      exact hb ▸ labelRowsWritten_block hr
  · rcases hcases h with h | ⟨_, ⟨⟩⟩ | ⟨_, ⟨⟩⟩ | ⟨_, ⟨⟩⟩
    rcases mem_beforeBlocks h with heq | ⟨_, _, ⟨⟩⟩ | ⟨l', hl, herr, heq⟩ | ⟨_, ⟨⟩⟩
    · cases heq
    · injection heq with heq
      injection heq with heq
      subst heq
      refine (Document.mem_vecPoints hl herr).imp_right fun ⟨r, hr, hlabel⟩ => ⟨r.1.2, ?_⟩
      exact hlabel ▸ label_written hr

/-! ## What the rollback takes away -/

def payload (d : Document) (txn : UInt64) : Cortrix.Store.PendingEntry :=
  rollbackPayload txn ⟨.pending, d.docId, d.blockIds, .document⟩

/-- Of the rows of a run the callback takes exactly those it covers. -/
theorem cleanup_holds_iff (hshape : Shaped d ws) (hnamed : d.docId ≠ []) (hw : w ∈ ws) (txn : UInt64) :
    ({ u.writeAll ws with stores := (u.writeAll ws).stores.cleanup (payload d txn) fun _ => false } : UnitStores).holds
      w = false ↔ Covered d u.stores.maxVariables w := by
  have hholds : (u.writeAll ws).holds w = true := UnitStores.holds_of_mem hw
  have hmax : (u.writeAll ws).stores.maxVariables = u.stores.maxVariables := UnitStores.maxVariables_writeAll
  have hdoc : (d.docId.isEmpty) = false := by simpa using hnamed
  -- the block a label of the run stands with is one of the list
  have hlabel : ∀ {l b}, .label l b ∈ ws →
      ((u.writeAll ws).stores.labels l).any d.blockIds.contains = true := by
    intro l b hmem
    obtain ⟨b', heq, hmem'⟩ := UnitStores.labels_of_mem (u := u) hmem
    rw [heq]
    exact List.contains_iff_mem.mpr (hshape.label _ _ hmem')
  cases w with
  | row r =>
    have hrow : (u.writeAll ws).stores.rows r = true := hholds
    show ((u.writeAll ws).stores.rows r && !((u.writeAll ws).stores.covers (payload d txn) r && !false)) = false ↔ _
    rw [hrow, Bool.not_false, Bool.and_true, Bool.true_and, Bool.not_eq_false']
    cases r with
    | block id => simp [Stores.covers, payload, rollbackPayload, Covered, hmax]
    | point l =>
      simp only [Stores.covers, payload, rollbackPayload, Covered, hmax, Bool.or_eq_true, Bool.and_eq_true,
        List.contains_iff_mem, decide_eq_true_eq]
      refine or_congr_right' fun hids => ⟨And.left, fun hlen => ⟨hlen, ?_⟩⟩
      obtain ⟨b, hmem⟩ := (hshape.point l hw).resolve_left hids
      exact hlabel hmem
    | parent p x => simp [Stores.covers, payload, rollbackPayload, Covered, hdoc, hshape.parent _ _ hw]
    | docFts x => simp [Stores.covers, payload, rollbackPayload, Covered, hdoc, hshape.docFts _ hw]
  | label l b =>
    have hsome : ((u.writeAll ws).stores.labels l).isSome = true := hholds
    have hany := hlabel hw
    by_cases hlen : d.blockIds.length ≤ u.stores.maxVariables
    · simp [UnitStores.holds, Stores.cleanup, payload, rollbackPayload, Covered, hmax, hlen, hany]
    · simp [UnitStores.holds, Stores.cleanup, payload, rollbackPayload, Covered, hmax, hlen, hsome]
  | enrichState b =>
    have hrow : (u.writeAll ws).enrichState b = true := hholds
    simp [UnitStores.holds, Covered, hrow]
  | sparse c =>
    have hpostings : (u.writeAll ws).sparseIndex c = true := hholds
    simp [UnitStores.holds, Covered, hpostings]

theorem covered_iff : (∀ w ∈ written (attempts d a), Covered d limit w) ↔
    (∀ b ∈ inserted d a, insertedId a b ∈ d.blockIds) ∧ (∀ b ∈ inserted d a, sidecars d a b = []) ∧
      (d.blockIds.length ≤ limit ∨ labelRowsWritten d a = [] ∧ inserted d a = []) := by
  constructor
  · intro hall
    have hblock : ∀ b ∈ inserted d a, ∀ w ∈ Write.row (.block (insertedId a b)) :: sidecars d a b, Covered d limit w := by
      intro b hb w hw
      rw [written_attempts] at hall
      exact hall w (List.mem_append_right _ (List.mem_flatMap.mpr ⟨b, hb, hw⟩))
    refine ⟨fun b hb => (hblock b hb _ List.mem_cons_self).2, fun b hb => ?_, ?_⟩
    · refine List.eq_nil_iff_forall_not_mem.mpr fun w hw => ?_
      have hcovered := hblock b hb w (List.mem_cons_of_mem _ hw)
      rcases mem_sidecars hw with ⟨c, rfl⟩ | rfl
      · exact hcovered
      · exact hcovered
    · refine or_iff_not_imp_left.mpr fun hlen => ⟨?_, ?_⟩
      · exact List.eq_nil_iff_forall_not_mem.mpr fun r hr => hlen (hall _ (label_written hr))
      · exact List.eq_nil_iff_forall_not_mem.mpr fun b hb => hlen (hblock b hb _ List.mem_cons_self).1
  · rintro ⟨hlisted, hbare, hfits⟩ w hw
    have hlabel : ∀ r ∈ labelRowsWritten d a, d.blockIds.length ≤ limit := by
      intro r hr
      refine hfits.resolve_right fun hnone => ?_
      rw [hnone.1] at hr
      cases hr
    rw [written_attempts] at hw
    rcases List.mem_append.mp hw with hw | hw
    · rcases mem_beforeBlocks hw with rfl | ⟨r, hr, rfl⟩ | ⟨l, hl, herr, rfl⟩ | ⟨p, rfl⟩
      · trivial
      · exact hlabel r hr
      · rcases Document.mem_vecPoints hl herr with hids | ⟨r, hr, -⟩
        · exact Or.inl hids
        · exact Or.inr (hlabel r hr)
      · trivial
    · obtain ⟨b, hb, hw⟩ := List.mem_flatMap.mp hw
      rcases List.mem_cons.mp hw with rfl | hw
      · refine ⟨hfits.resolve_right fun hnone => ?_, hlisted b hb⟩
        rw [hnone.2] at hb
        cases hb
      · rw [hbare b hb] at hw
        cases hw

/-! ## The run of a failed ingest -/

/-- The steps of the coordinator that make up a `Rollback`. -/
def rollbackActs (tid : Nat) (txn : UInt64) (now : Int64) : AppendOutcome → List Store.WriteCoordinator.Act
  | .ok => [.rollback tid txn now, .append tid .ok, .advance tid, .callback tid true fun _ => false]
  | .failed landed err => [.rollback tid txn now, .append tid (.failed landed err)]

/-- `rollback` is what the coordinator does when nothing else runs. -/
theorem rollback_run (cfg : Store.WriteCoordinator.Config) (cs : State) (tid : Nat) (txn : UInt64) (now : Int64)
    (o : AppendOutcome) (hrunning : cs.running = true) (hidle : cs.calls tid = none)
    (hpending : (Store.WriteCoordinator.live cs txn) = true) (e : UInt64 → Bool) (p : Bytes → Bool) :
    ∃ cs', run (step cfg) cs (rollbackActs tid txn now o) = some cs' ∧
      cs'.tables = (rollback ⟨cs.tables, ⟨cs.stores, e, p⟩⟩ txn o).tables ∧
      cs'.stores = (rollback ⟨cs.tables, ⟨cs.stores, e, p⟩⟩ txn o).unit.stores := by
  obtain ⟨orig, htxn, hstate⟩ := (Option.any_eq_true _ _).mp hpending
  have hmark : ∃ tables, cs.tables.checkAndMarkFinalizing txn .rollback = .ok (orig, tables) := by
    simp only [Tables.checkAndMarkFinalizing, htxn, beq_iff_eq.mp hstate]
    exact ⟨_, rfl⟩
  obtain ⟨tables, hmark⟩ := hmark
  unfold rollback
  cases o with
  | ok =>
    simp [rollbackActs, run, step, hrunning, hidle, hmark, Store.WriteCoordinator.stepAppend,
      Store.WriteCoordinator.stepAdvance, Store.WriteCoordinator.stepCallback, Store.WriteCoordinator.setCall, reply]
  | failed landed err =>
    simp [rollbackActs, run, step, hrunning, hidle, hmark, Store.WriteCoordinator.stepAppend,
      Store.WriteCoordinator.setCall, reply]

theorem ingest_failed {txn : UInt64} {tables : Tables} {err : String}
    (hbegin : s.tables.reserve d.docId d.blockIds .document = .ok (txn, tables)) (happend : a.begin = .ok)
    (herr : firstError (attempts d a) = some err) :
    ingest s d a = (rollback ⟨tables, s.unit.writeAll (written (attempts d a))⟩ txn a.rollback, some err) := by
  unfold ingest
  rw [hbegin, happend]
  rw [herr]

theorem mark_reserved {txn : UInt64} {t tables : Tables}
    (hbegin : t.reserve d.docId d.blockIds .document = .ok (txn, tables)) :
    ∃ marked, tables.checkAndMarkFinalizing txn .rollback =
        .ok (⟨.pending, d.docId, d.blockIds, .document⟩, marked) ∧ (marked.activeDocs d.docId).isSome = true := by
  unfold Tables.reserve at hbegin
  split at hbegin
  · cases hbegin
  · cases hbegin
    simp [Tables.checkAndMarkFinalizing]

theorem reserve_free_iff {t : Tables} {docId : Bytes} :
    (∀ blockIds scope, ∃ r, t.reserve docId blockIds scope = .ok r) ↔ (t.activeDocs docId).isSome = false := by
  constructor
  · intro h
    obtain ⟨r, hr⟩ := h [] .document
    unfold Tables.reserve at hr
    split at hr
    · cases hr
    · rename_i hfree
      exact Bool.eq_false_iff.mpr hfree
  · intro h blockIds scope
    unfold Tables.reserve
    rw [h, if_neg Bool.false_ne_true]
    exact ⟨_, rfl⟩

/-- **A failed ingest leaves nothing behind** exactly if it is undoable: for every document and every way in which the
stores answer, if a step of the write phase fails. -/
theorem nothing_left_iff (s : UnitState) (d : Document) (a : Answers)
    (hbegin : ∃ r, s.tables.reserve d.docId d.blockIds .document = .ok r) (happend : a.begin = .ok)
    (hfailed : firstError (attempts d a) ≠ none) :
    NothingLeft d a (ingest s d a).1 ↔ Undoable d a s.unit.stores.maxVariables := by
  obtain ⟨⟨txn, tables⟩, hbegin⟩ := hbegin
  obtain ⟨err, herr⟩ := Option.ne_none_iff_exists'.mp hfailed
  obtain ⟨marked, hmark, hactive⟩ := mark_reserved hbegin
  rw [ingest_failed hbegin happend herr]
  have hfree : (∀ blockIds scope, ∃ r, ((rollback ⟨tables, s.unit.writeAll (written (attempts d a))⟩ txn
      a.rollback).tables.reserve d.docId blockIds scope) = .ok r) ↔ a.rollback = .ok ∧ d.docId ≠ [] := by
    rw [reserve_free_iff]
    unfold rollback
    dsimp only
    rw [hmark]
    cases hlog : a.rollback with
    | failed landed err => simp [hactive]
    | ok =>
      cases hdoc : d.docId with
      | nil => simpa [Tables.releaseDoc, hdoc, Option.isSome_iff_ne_none] using hactive
      | cons c docId => simp [Tables.releaseDoc]
  by_cases hend : a.rollback = .ok ∧ d.docId ≠ []
  · obtain ⟨hlog, hnamed⟩ := hend
    have hunit : (rollback ⟨tables, s.unit.writeAll (written (attempts d a))⟩ txn a.rollback).unit =
        { s.unit.writeAll (written (attempts d a)) with
          stores := (s.unit.writeAll (written (attempts d a))).stores.cleanup (payload d txn) fun _ => false } := by
      unfold rollback
      rw [hmark, hlog]
      rfl
    have hgone : (∀ w ∈ written (attempts d a),
        (rollback ⟨tables, s.unit.writeAll (written (attempts d a))⟩ txn a.rollback).unit.holds w = false) ↔
          ∀ w ∈ written (attempts d a), Covered d s.unit.stores.maxVariables w := by
      rw [hunit]
      exact forall₂_congr fun w hw => cleanup_holds_iff (shaped d a) hnamed hw txn
    constructor
    · intro h
      obtain ⟨hlisted, hbare, hfits⟩ := covered_iff.mp (hgone.mp h.gone)
      exact ⟨hlog, hnamed, hlisted, hbare, hfits⟩
    · intro h
      exact ⟨hgone.mpr (covered_iff.mpr ⟨h.listed, h.bare, h.fits⟩), hfree.mpr ⟨hlog, hnamed⟩⟩
  · exact iff_of_false (fun h => hend (hfree.mp h.free)) fun h => hend ⟨h.logged, h.named⟩

/-! ## A document of two chunks -/

def twoChunks : Document where
  docId := [0x64]
  children :=
    [{ blockId := 7, contextual := some 17, childId := [0x61], sparse := true },
      { blockId := 8, childId := [0x62], sparse := true }]
  metaBlock := some { blockId := 9 }
  parents := [[0x70]]
  enrichStageRan := true
  sparseRegistry := true

def emptyUnit : UnitState := { tables := {}, unit := { stores := emptyStores } }

/-- The `n`-th block is not inserted. -/
def blockFails (n : Nat) : Answers := { block := fun i => i != n }

/-- The first block fails: the points, the label row, the parent and the full-text row go again. -/
theorem nothing_left_iff_firstBlock :
    (ingest emptyUnit twoChunks (blockFails 0)).2 = some "block_insert failed" ∧
      Write.label 17 7 ∈ written (attempts twoChunks (blockFails 0)) ∧
      NothingLeft twoChunks (blockFails 0) (ingest emptyUnit twoChunks (blockFails 0)).1 := by
  refine ⟨by decide +kernel, by decide +kernel, ?_⟩
  refine (nothing_left_iff emptyUnit twoChunks (blockFails 0) ⟨_, rfl⟩ rfl (by decide +kernel)).mpr ?_
  have hnone : inserted twoChunks (blockFails 0) = [] := by decide +kernel
  refine ⟨rfl, by decide, ?_, ?_, Or.inl (by decide)⟩
  · rw [hnone]
    exact fun b hb => nomatch hb
  · rw [hnone]
    exact fun b hb => nomatch hb

/-- The second block fails: the `enrich_state` row and the postings of the first stay. -/
theorem sidecars_left :
    (ingest emptyUnit twoChunks (blockFails 1)).2 = some "block_insert failed" ∧
      (ingest emptyUnit twoChunks (blockFails 1)).1.unit.stores.rows (.block 7) = false ∧
      (ingest emptyUnit twoChunks (blockFails 1)).1.unit.enrichState 7 = true ∧
      (ingest emptyUnit twoChunks (blockFails 1)).1.unit.sparseIndex [0x61] = true ∧
      ¬ NothingLeft twoChunks (blockFails 1) (ingest emptyUnit twoChunks (blockFails 1)).1 := by
  have hleft : (ingest emptyUnit twoChunks (blockFails 1)).1.unit.holds (.enrichState 7) = true := by decide +kernel
  refine ⟨by decide +kernel, by decide +kernel, by decide +kernel, by decide +kernel, fun h => ?_⟩
  have hgone := h.gone (.enrichState 7) (by decide +kernel)
  rw [hleft] at hgone
  cases hgone

end Cortrix.Spc.FailedIngest
