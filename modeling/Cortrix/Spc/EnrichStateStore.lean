import Mathlib.Data.List.Sort
import Cortrix.Common.Ints
import Cortrix.Lib.Table
import Cortrix.Lib.Utf8

/-!
# The enrich_state table

One row for each chunk that may owe enrichment. An operation is a function on the table; a statement that fails leaves it
as it is. The columns are wider than the program's `int`: the statements count in the columns, a row that is read is
narrowed. An empty text is the SQL `NULL`.

* `reoweEnrichState`, `resetGivenUpEnrichRows`, `settleTerminalRow` : the transitions that bump the generation.
-/

namespace Cortrix.Spc
open Lib

inductive EnrichStatus
  | ok | pendingRetry | failedPermanent
  deriving DecidableEq

def kEnrichMaxAttempts : Int := 8

def kEnrichNoTerminal : Int := 2 ^ 31 - 1

structure EnrichStateRow where
  blockId : Nat
  docId : String
  childId : String
  status : EnrichStatus
  failedMembers : String
  attempts : Int
  lastError : Bytes
  nextRetryAt : Option Int
  updatedAt : Int
  generation : Int
  deriving DecidableEq

/-- A due time that is not positive is bound as `NULL`. -/
def bindRetryAt (at_ : Option Int) : Option Int := at_.filter fun n => decide (0 < n)

def EnrichStateRow.isPending (r : EnrichStateRow) : Bool := r.status == .pendingRetry

def EnrichStateRow.isGivenUp (r : EnrichStateRow) : Bool := r.status == .failedPermanent

def rowOf (blockId : Nat) (rows : List EnrichStateRow) : Option EnrichStateRow :=
  lookup EnrichStateRow.blockId blockId rows

/-! ## Reads -/

/-- A row as it is read: `attempts` and `generation` are narrowed to an `int`. -/
def rowFromStmt (r : EnrichStateRow) : EnrichStateRow :=
  { r with attempts := toInt r.attempts, generation := toInt r.generation }

/-- The pending rows of a document, by block id. -/
def listEnrichStateForDoc (docId : String) (rows : List EnrichStateRow) : List EnrichStateRow :=
  ((rows.filter fun r => r.docId == docId && r.isPending).insertionSort fun r r' => r.blockId ≤ r'.blockId).map
    rowFromStmt

def EnrichStateRow.due (now : Int) (r : EnrichStateRow) : Bool :=
  r.isPending && r.nextRetryAt.any fun n => decide (n ≤ now)

/-! ## Writes of the due time -/

def leaseDocRetries (docId : String) (leaseUntil now : Int) (rows : List EnrichStateRow) : List EnrichStateRow :=
  updateWhere (fun r => r.docId == docId && r.isPending)
    (fun r => { r with nextRetryAt := some leaseUntil, updatedAt := now }) rows

/-- A row that is already due keeps its older time. -/
def makeAllPendingDueNow (now : Int) (rows : List EnrichStateRow) : List EnrichStateRow :=
  updateWhere (fun r => r.isPending && r.nextRetryAt.all fun n => decide (now < n))
    (fun r => { r with nextRetryAt := some now, updatedAt := now }) rows

/-! ## Writes of a delivery -/

/-- One delivery counted: a row whose new count passes the bound is given up on. -/
def EnrichStateRow.charge (terminalAt now : Int) (r : EnrichStateRow) : EnrichStateRow :=
  { r with
    attempts := r.attempts + 1
    updatedAt := now
    status := if terminalAt < r.attempts + 1 then .failedPermanent else r.status
    nextRetryAt := if terminalAt < r.attempts + 1 then none else r.nextRetryAt }

def chargeChunk (terminalAt now : Int) (rows : List EnrichStateRow) (ids : List Nat) : List EnrichStateRow :=
  updateWhere (fun r => r.isPending && ids.contains r.blockId) (EnrichStateRow.charge terminalAt now) rows

def chargeEnrichAttempts (ids : List Nat) (now terminalAt : Int) (chunks : Nat) (rows : List EnrichStateRow) :
    List EnrichStateRow :=
  ((ids.toChunks 400).take chunks).foldl (chargeChunk terminalAt now) rows

/-- The columns of a row that the flip writes. -/
def EnrichStateRow.flip (w r : EnrichStateRow) : EnrichStateRow :=
  { r with
    status := w.status
    failedMembers := w.failedMembers
    attempts := w.attempts
    lastError := w.lastError
    nextRetryAt := bindRetryAt w.nextRetryAt
    updatedAt := w.updatedAt }

def flipEnrichStateIfGeneration (w : EnrichStateRow) (expected : Int) (rows : List EnrichStateRow) :
    List EnrichStateRow :=
  updateWhere (fun r => r.blockId == w.blockId && r.generation == expected) w.flip rows

/-! ## Transitions of the audit and of the operator -/

/-- The re-owe of an existing row: it keeps its count, and a count that has reached the bound stays terminal. -/
def EnrichStateRow.reowe (w : EnrichStateRow) (terminalAt : Int) (r : EnrichStateRow) : EnrichStateRow :=
  { r with
    docId := w.docId
    childId := w.childId
    status := if terminalAt ≤ r.attempts then .failedPermanent else w.status
    failedMembers := w.failedMembers
    lastError := w.lastError
    nextRetryAt := if terminalAt ≤ r.attempts then none else bindRetryAt w.nextRetryAt
    updatedAt := w.updatedAt
    generation := r.generation + 1 }

def reoweEnrichState (w : EnrichStateRow) (terminalAt : Int) (rows : List EnrichStateRow) : List EnrichStateRow :=
  match insertRow EnrichStateRow.blockId { w with nextRetryAt := bindRetryAt w.nextRetryAt, generation := 0 } rows with
  | some rows' => rows'
  | none => updateWhere (fun r => r.blockId == w.blockId) (w.reowe terminalAt) rows

def EnrichStateRow.reset (now : Int) (r : EnrichStateRow) : EnrichStateRow :=
  { r with
    status := .pendingRetry
    attempts := 0
    nextRetryAt := some now
    lastError := utf8 "reset by operator".toList
    updatedAt := now
    generation := r.generation + 1 }

/-- The given-up rows whose block is still in `blocks`. -/
def resetGivenUpEnrichRows (blocks : List Nat) (now : Int) (rows : List EnrichStateRow) : List EnrichStateRow :=
  updateWhere (fun r => r.isGivenUp && blocks.contains r.blockId) (EnrichStateRow.reset now) rows

def EnrichStateRow.settle (now : Int) (r : EnrichStateRow) : EnrichStateRow :=
  { r with
    status := .ok
    failedMembers := ""
    lastError := []
    nextRetryAt := none
    updatedAt := now
    generation := r.generation + 1 }

def settleTerminalRow (blockId : Nat) (now : Int) (rows : List EnrichStateRow) : List EnrichStateRow :=
  updateWhere (fun r => r.blockId == blockId && r.isGivenUp) (EnrichStateRow.settle now) rows

/-! ## One row after a statement -/

variable {rows rows' : List EnrichStateRow} {r : EnrichStateRow} {b : Nat}

theorem mem_listEnrichStateForDoc {docId : String} : r ∈ listEnrichStateForDoc docId rows ↔
    ∃ r₀ ∈ rows, (r₀.docId = docId ∧ r₀.isPending = true) ∧ rowFromStmt r₀ = r := by
  unfold listEnrichStateForDoc
  simp only [List.mem_map, List.mem_insertionSort, List.mem_filter, Bool.and_eq_true, beq_iff_eq, and_assoc]

theorem listEnrichStateForDoc_nodup (h : Keyed EnrichStateRow.blockId rows) (docId : String) :
    ((listEnrichStateForDoc docId rows).map EnrichStateRow.blockId).Nodup := by
  unfold listEnrichStateForDoc
  rw [List.map_map]
  refine ((List.perm_insertionSort _ _).map _).nodup_iff.mpr ?_
  exact List.Nodup.sublist (List.filter_sublist.map EnrichStateRow.blockId) h

theorem rowOf_updateWhere {p : EnrichStateRow → Bool} {f : EnrichStateRow → EnrichStateRow}
    (hf : ∀ r, (f r).blockId = r.blockId) (b : Nat) (rows : List EnrichStateRow) :
    rowOf b (updateWhere p f rows) = (rowOf b rows).map fun r => if p r then f r else r :=
  lookup_updateWhere hf b rows

theorem rowOf_flip (w : EnrichStateRow) (g : Int) (rows : List EnrichStateRow) :
    rowOf b (flipEnrichStateIfGeneration w g rows) =
      (rowOf b rows).map fun r => if r.blockId == w.blockId && r.generation == g then w.flip r else r :=
  rowOf_updateWhere (by intro _; rfl) b rows

theorem rowOf_flip_cases (w : EnrichStateRow) (g : Int) (hr : rowOf b rows = some r) :
    ∃ r', rowOf b (flipEnrichStateIfGeneration w g rows) = some r' ∧
      (w.blockId = b ∧ r.generation = g ∧ r' = w.flip r ∨ r' = r) := by
  refine ⟨_, (rowOf_flip w g rows).trans (by rw [hr]; rfl), ?_⟩
  dsimp only
  split
  · rename_i hm
    rw [Bool.and_eq_true, beq_iff_eq, beq_iff_eq] at hm
    exact .inl ⟨hm.1.symm.trans (lookup_eq_some hr).2, hm.2, rfl⟩
  · exact .inr rfl

theorem rowOf_flip_stale {w : EnrichStateRow} {g : Int}
    (h : ∀ r, rowOf b rows = some r → w.blockId = b → r.generation ≠ g) :
    rowOf b (flipEnrichStateIfGeneration w g rows) = rowOf b rows := by
  rcases hr : rowOf b rows with - | r
  · rw [rowOf_flip, hr]
    rfl
  · obtain ⟨r', hr', ⟨hb, hg, -⟩ | rfl⟩ := rowOf_flip_cases w g hr
    · exact absurd hg (h r hr hb)
    · exact hr'

theorem rowOf_chargeChunk (terminalAt now : Int) (ids : List Nat) (b : Nat) (rows : List EnrichStateRow) :
    rowOf b (chargeChunk terminalAt now rows ids) =
      (rowOf b rows).map fun r => if r.isPending && ids.contains r.blockId then r.charge terminalAt now else r :=
  rowOf_updateWhere (by intro _; rfl) b rows

theorem rowOf_chargeEnrichAttempts {P : EnrichStateRow → Prop} (ids : List Nat) (now terminalAt : Int) (chunks : Nat)
    (hcharge : ∀ r, P r → P (r.charge terminalAt now)) (hr : ∃ r, rowOf b rows = some r ∧ P r) :
    ∃ r, rowOf b (chargeEnrichAttempts ids now terminalAt chunks rows) = some r ∧ P r := by
  unfold chargeEnrichAttempts
  generalize (ids.toChunks 400).take chunks = parts
  induction parts generalizing rows with
  | nil => exact hr
  | cons part parts ih =>
    apply ih
    obtain ⟨r, hrow, hp⟩ := hr
    rw [rowOf_chargeChunk, hrow]
    refine ⟨_, rfl, ?_⟩
    dsimp only
    split
    · exact hcharge r hp
    · exact hp

theorem flatten_toChunks {α : Type} (n : Nat) (xs : List α) : (xs.toChunks n).flatten = xs := by
  have hgo : ∀ (xs : List α) (acc₁ : Array α) (acc₂ : Array (List α)),
      (List.toChunks.go n xs acc₁ acc₂).flatten = acc₂.toList.flatten ++ (acc₁.toList ++ xs) := by
    intro xs
    induction xs with
    | nil => simp [List.toChunks.go]
    | cons x xs ih =>
      intro acc₁ acc₂
      rw [List.toChunks.go]
      split <;> simp [ih]
  rcases xs with - | ⟨x, xs⟩
  · simp [List.toChunks]
  · rcases n with - | n
    · simp [List.toChunks]
    · simp [List.toChunks, hgo]

/-- A charge counts a pending row once, when the statement of its id was reached. -/
theorem rowOf_chargeEnrichAttempts_eq {ids : List Nat} (hids : ids.Nodup) (now terminalAt : Int) (chunks : Nat)
    (hrow : rowOf b rows = some r) :
    rowOf b (chargeEnrichAttempts ids now terminalAt chunks rows) =
      some (if r.isPending ∧ b ∈ ((ids.toChunks 400).take chunks).flatten then r.charge terminalAt now else r) := by
  have hb : r.blockId = b := (lookup_eq_some hrow).2
  have hparts : ((ids.toChunks 400).take chunks).flatten.Nodup := by
    rw [← flatten_toChunks 400 ids, ← List.take_append_drop chunks (ids.toChunks 400), List.flatten_append] at hids
    exact (List.nodup_append.mp hids).1
  unfold chargeEnrichAttempts
  generalize (ids.toChunks 400).take chunks = parts at hparts ⊢
  -- once the statement of the id is reached, none of the others has it
  have hafter : ∀ (parts : List (List Nat)) (rows : List EnrichStateRow) r, b ∉ parts.flatten →
      rowOf b rows = some r → rowOf b (parts.foldl (chargeChunk terminalAt now) rows) = some r := by
    intro parts
    induction parts with
    | nil => exact fun rows r _ h => h
    | cons part parts ih =>
      intro rows r hnot h
      rw [List.flatten_cons, List.mem_append, not_or] at hnot
      have hrb : r.blockId = b := (lookup_eq_some h).2
      refine ih _ _ hnot.2 ?_
      rw [rowOf_chargeChunk, h]
      simp [hrb, hnot.1]
  induction parts generalizing rows with
  | nil => simpa using hrow
  | cons part parts ih =>
    rw [List.flatten_cons] at hparts ⊢
    rw [List.foldl_cons]
    obtain ⟨-, hrest, hdisj⟩ := List.nodup_append.mp hparts
    have hone : rowOf b (chargeChunk terminalAt now rows part) =
        some (if r.isPending ∧ b ∈ part then r.charge terminalAt now else r) := by
      rw [rowOf_chargeChunk, hrow]
      simp [hb]
    by_cases hmem : b ∈ part
    · rw [hafter parts _ _ (fun h => hdisj b hmem b h rfl) hone]
      simp [hmem]
    · rw [if_neg (by simp [hmem])] at hone
      rw [ih hone hrest]
      simp [hmem]

theorem rowOf_chargeEnrichAttempts_none (ids : List Nat) (now terminalAt : Int) (chunks : Nat)
    (hrow : rowOf b rows = none) : rowOf b (chargeEnrichAttempts ids now terminalAt chunks rows) = none := by
  unfold chargeEnrichAttempts
  generalize (ids.toChunks 400).take chunks = parts
  induction parts generalizing rows with
  | nil => exact hrow
  | cons part parts ih =>
    apply ih
    rw [rowOf_chargeChunk, hrow]
    rfl

theorem rowOf_reoweEnrichState (w : EnrichStateRow) (terminalAt : Int) (hrow : rowOf b rows = some r) :
    rowOf b (reoweEnrichState w terminalAt rows) = some (if r.blockId == w.blockId then w.reowe terminalAt r else r) := by
  unfold reoweEnrichState
  split
  · rename_i rows' hins
    -- a new row is of another block
    obtain ⟨hne, rfl⟩ := insertRow_eq_some.mp hins
    obtain ⟨hmem, hb⟩ := lookup_eq_some hrow
    have hother : r.blockId ≠ w.blockId := hne r hmem
    rw [if_neg (by simpa using hother)]
    unfold rowOf lookup at hrow ⊢
    rw [List.find?_append, hrow]
    rfl
  · rw [rowOf_updateWhere (by intro _; rfl), hrow]
    rfl

theorem rowOf_reoweEnrichState_new {w : EnrichStateRow} {terminalAt : Int} (hrow : rowOf b rows = none)
    (h : rowOf b (reoweEnrichState w terminalAt rows) = some r) :
    w.blockId = b ∧ r = { w with nextRetryAt := bindRetryAt w.nextRetryAt, generation := 0 } := by
  unfold reoweEnrichState at h
  split at h
  · rename_i rows' hins
    obtain ⟨-, rfl⟩ := insertRow_eq_some.mp hins
    unfold rowOf lookup at hrow h
    rw [List.find?_append, hrow, Option.none_or, List.find?_singleton] at h
    split at h
    · rename_i hb
      cases h
      exact ⟨by simpa using hb, rfl⟩
    · cases h
  · rw [rowOf_updateWhere (by intro _; rfl), hrow] at h
    cases h

/-! ## Primary keys -/

theorem keyed_reoweEnrichState (h : Keyed EnrichStateRow.blockId rows) (w : EnrichStateRow) (terminalAt : Int) :
    Keyed EnrichStateRow.blockId (reoweEnrichState w terminalAt rows) := by
  unfold reoweEnrichState
  split
  · rename_i rows' hins
    exact h.insertRow hins
  · exact h.updateWhere fun _ _ => rfl

theorem keyed_chargeEnrichAttempts (h : Keyed EnrichStateRow.blockId rows) (ids : List Nat) (now terminalAt : Int)
    (chunks : Nat) : Keyed EnrichStateRow.blockId (chargeEnrichAttempts ids now terminalAt chunks rows) := by
  unfold chargeEnrichAttempts
  generalize (ids.toChunks 400).take chunks = parts
  induction parts generalizing rows with
  | nil => exact h
  | cons part parts ih => exact ih (h.updateWhere fun _ _ => rfl)

end Cortrix.Spc
