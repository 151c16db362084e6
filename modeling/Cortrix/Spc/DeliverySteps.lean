import Cortrix.Lib.Run
import Cortrix.Spc.EnrichBackfillWorker

/-!
# Deliveries step by step

The deliveries of one document, at most one at a time, as the statements they issue, each a step of its own; a delivery may
stop after any of them. Between the steps of a delivery the audits of the namespace go on, any number of them, each from
the view it has read, and the sweeper leases rows and makes them due. Other writers change the artifact tables; they key
a chunk's block by its child id, as every writer does. The chain of a call, what its providers answer and the statements
that fail are part of the step.
-/

namespace Cortrix.Spc.DeliverySteps
open Lib BackfillWorker

inductive Phase
  | listed (snapshot : List EnrichStateRow)
  | classified (cs : List (EnrichStateRow × Option Work))
  | charged (cs : List (EnrichStateRow × Option Work))
  /-- All rows are charged; some groups are still to be sent to the chain. -/
  | calling (todo : List (Bucket Work)) (labelOnly : List Work) (repairs : List Repair)
  | persisting (todo done : List Repair)
  | flipping (todo : List Repair)

/-- A delivery, with the level and the chunks of the document as it has read them. -/
structure Delivery where
  docLevel : Int
  children : List Block
  phase : Phase

/-- An audit in progress: what it has read, and what it is about to write. -/
structure Audit where
  view : AuditView
  now : Int
  write : Option AuditWrite

structure State where
  store : UnitStore
  rows : List EnrichStateRow
  delivery : Option Delivery
  audits : List Audit
  /-- The blocks of the chunks passed to the chain, one entry for each time. -/
  called : List Nat

inductive Act
  | list
  | classify
  | settle (w : Work) (now : Int)
  | chargeProvider (now : Int) (chunks : Nat)
  | chargeLabelOnly (now : Int) (chunks : Nat)
  | call (chain : EnricherChain)
  | assemble (env : Writer)
  | persist (f : Faults)
  | commit
  | flip (now : Int) (written : Bool)
  | stop
  | auditRead (configured : List String) (now : Int)
  | auditTrack (k : Nat)
  | auditScan (k b : Nat)
  | auditWrite (k : Nat)
  | lease (docId : String) (leaseUntil now : Int)
  | makeAllPendingDueNow (now : Int)
  | writeStore (store : UnitStore)

def State.setPhase (s : State) (d : Delivery) (phase : Phase) : State := { s with delivery := some { d with phase } }

/-- One statement after the other, up to the first that fails; a charge that is not complete fails the delivery. -/
def charge (s : State) (d : Delivery) (ids : List Nat) (now terminalAt : Int) (chunks : Nat) (next : Phase) : State :=
  let s := { s with rows := chargeEnrichAttempts ids now terminalAt chunks s.rows }
  if chunks < (ids.toChunks 400).length then { s with delivery := none } else s.setPhase d next

def deliveryStep (hash : String → Nat) (docId : String) (s : State) (d : Delivery) : Phase → Act → Option State
  | .listed snapshot, .classify =>
    some (s.setPhase ⟨docLevelOf s.store.docs docId, childrenOf docId s.store.blocks, .listed snapshot⟩
      (.classified (classifyAll docId s.store snapshot)))
  | .classified cs, .settle w now =>
    if w ∈ works cs ∧ w.isSettled then
      some { s with rows := flipEnrichStateIfGeneration (settledRow w.row now) w.row.generation s.rows }
    else none
  | .classified cs, .chargeProvider now chunks =>
    some (charge s d (providerIds cs) now (kMaxAttempts + 1) chunks (.charged cs))
  | .charged cs, .chargeLabelOnly now chunks =>
    some (charge s d (labelOnlyIds cs) now kEnrichNoTerminal chunks
      (.calling (groups (works cs)) ((works cs).filter Work.isLabelOnly) []))
  | .calling (g :: todo) labelOnly repairs, .call chain =>
    some ({ s with called := s.called ++ g.all.map fun (w : Work) => w.row.blockId }.setPhase d
      (.calling todo labelOnly (repairs ++ callChain chain d.children s.store.parents g)))
  | .calling [] labelOnly repairs, .assemble env =>
    let a := assemble { env with docId, hashChildIdToBlockId := hash } s.store.labels (hypeBlocksExpected d.docLevel) (hypeSources s.store.blocks)
      (repairs ++ labelOnly.map labelOnlyRepair) {}
    match insertBlocks a.2.blocks s.store.blocks with
    | none => some { s with delivery := none }
    | some blocks =>
      some ({ s with store := { s.store with blocks, points := s.store.points ++ a.2.points } }.setPhase d
        (.persisting a.1 []))
  | .persisting (r :: todo) done, .persist f =>
    let p := persist f r s.store
    some ({ s with store := p.2 }.setPhase d (.persisting todo (done ++ [p.1])))
  | .persisting [] done, .commit => some (s.setPhase d (.flipping done))
  | .flipping (r :: todo), .flip now written =>
    let rows := if written then flipEnrichStateIfGeneration (flipRow now r) r.row.generation s.rows else s.rows
    some ({ s with rows }.setPhase d (.flipping todo))
  | _, .stop => some { s with delivery := none }
  | _, _ => none

def step (hash : String → Nat) (docId : String) (s : State) : Act → Option State
  | .list =>
    match s.delivery with
    | none => some { s with delivery := some ⟨0, [], .listed (listEnrichStateForDoc docId s.rows)⟩ }
    | some _ => none
  | .auditRead configured now =>
    some { s with audits := s.audits ++ [⟨AuditView.ofStore configured s.store, now, none⟩] }
  | .auditTrack k => do
    let a ← s.audits[k]?
    some { s with audits := s.audits.set k { a with view := a.view.track s.rows } }
  | .auditScan k b => do
    let a ← s.audits[k]?
    let x ← blockOf b s.store.blocks
    if x.childId ≠ "" then some { s with audits := s.audits.set k { a with write := auditBlock a.view a.now x } } else none
  | .auditWrite k => do
    let a ← s.audits[k]?
    let w ← a.write
    some { s with rows := w.apply a.now s.rows, audits := s.audits.set k { a with write := none } }
  | .lease docId leaseUntil now => some { s with rows := leaseDocRetries docId leaseUntil now s.rows }
  | .makeAllPendingDueNow now => some { s with rows := makeAllPendingDueNow now s.rows }
  | .writeStore store => if BlocksKeyed hash store.blocks then some { s with store } else none
  | a => s.delivery.bind fun d => deliveryStep hash docId s d d.phase a

/-! ## Calls -/

/-- The blocks a delivery is committed to pass to the chain. -/
def Phase.due : Phase → List Nat
  | .charged cs => ((works cs).filter Work.isProvider).map fun w => w.row.blockId
  | .calling todo _ _ => (todo.flatMap Bucket.all).map fun w => w.row.blockId
  | _ => []

/-- How often the chunk of a block was passed to the chain, the calls a delivery is committed to included. -/
def State.spent (s : State) (b : Nat) : Nat :=
  s.called.count b + ((s.delivery.map fun d => d.phase.due).getD []).count b

end Cortrix.Spc.DeliverySteps
