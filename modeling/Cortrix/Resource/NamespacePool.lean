import Cortrix.Lib.Run
import Cortrix.Lib.Table

/-!
# DefaultNamespacePool

The resident slots with their reference counts, and the borrows handed out by `acquire`. Every critical section of
`pool_mutex_` is one step; `release` has two, the decrement under the shared lock (`releaseDec`) and the reap under
the exclusive one (`releaseReap`).
-/

namespace Cortrix.Resource.NamespacePool
open Lib

inductive PoolErrorCode
  | nsQuotaExceeded | nsResourceBudgetExceeded | nsLoadFailed | nsNotFound
  deriving DecidableEq

/-- `NamespaceSlot` under its key. The node of the map and the loaded bundle are told apart by their identities:
a slot keeps its node, and each load makes a new bundle. -/
structure Slot where
  nsId : String
  node : Nat
  bundle : Nat
  refcount : Int
  pendingDelete : Bool

/-- An outstanding borrow: the pointer `acquire` returned, and the bundle it pointed to. -/
structure Borrow where
  nsId : String
  node : Nat
  bundle : Nat
  deriving DecidableEq

structure Config where
  maxNamespacesPerInstance : Nat
  /-- 0 disables the memory gate. -/
  memoryBudgetBytes : Nat

structure State where
  slots : List Slot
  borrows : List Borrow
  /-- The `release` calls between their two sections that found `maybe_reap`. -/
  reaping : List String
  startupFailedNamespaces : List String
  /-- The next node or bundle identity. -/
  fresh : Nat

def State.init (startupFailed : List String) : State := ⟨[], [], [], startupFailed, 0⟩

/-! ## Slots -/

def slotOf (s : State) (nsId : String) : Option Slot := lookup Slot.nsId nsId s.slots

/-- `bundles_[ns].bundle = ..` with what the caller then does to the slot: the node is reused or made. -/
def install (s : State) (nsId : String) (f : Slot → Slot) : State :=
  match slotOf s nsId with
  | some _ =>
    { s with
      slots := updateWhere (fun slot => slot.nsId == nsId) (fun slot => f { slot with bundle := s.fresh }) s.slots
      fresh := s.fresh + 1 }
  | none =>
    { s with
      slots := s.slots ++ [f ⟨nsId, s.fresh, s.fresh, 0, false⟩]
      fresh := s.fresh + 1 }

def erase (s : State) (nsId : String) : State :=
  { s with slots := deleteWhere (fun slot => slot.nsId == nsId) s.slots }

/-! ## The critical sections -/

def alreadyResident (s : State) (nsId : String) : Bool := (slotOf s nsId).any fun slot => !slot.pendingDelete

def nsCountExceeded (cfg : Config) (s : State) (nsId : String) : Bool :=
  !alreadyResident s nsId && decide (cfg.maxNamespacesPerInstance < s.slots.length + 1)

def memoryExceeded (cfg : Config) (s : State) (nsId : String) (estimated used : Nat) : Bool :=
  decide (0 < cfg.memoryBudgetBytes) && !alreadyResident s nsId && decide (cfg.memoryBudgetBytes < used + estimated)

/-- `AdmitCreate`; `used` is the live memory sum and `loaded` whether `LoadOneNamespaceInner` succeeds. -/
def admitCreate (cfg : Config) (s : State) (nsId : String) (estimated used : Nat) (loaded : Bool) :
    State × Except PoolErrorCode Unit :=
  if nsCountExceeded cfg s nsId then (s, .error .nsQuotaExceeded)
  else if memoryExceeded cfg s nsId estimated used then (s, .error .nsResourceBudgetExceeded)
  else if alreadyResident s nsId then (s, .ok ())
  else if !loaded then (s, .error .nsLoadFailed)
  else (install s nsId fun slot => { slot with refcount := 0, pendingDelete := false }, .ok ())

/-- `Acquire`: a slot whose reap is pending is refused. -/
def acquire (s : State) (nsId : String) : State × Except PoolErrorCode Borrow :=
  match slotOf s nsId with
  | none => (s, .error .nsNotFound)
  | some slot =>
    if slot.pendingDelete then (s, .error .nsNotFound)
    else
      let b := ⟨nsId, slot.node, slot.bundle⟩
      ({ s with
         slots := updateWhere (fun slot => slot.nsId == nsId) (fun slot => { slot with refcount := slot.refcount + 1 })
           s.slots
         borrows := b :: s.borrows }, .ok b)

def releaseDec (s : State) (b : Borrow) : State :=
  match slotOf s b.nsId with
  | none => { s with borrows := s.borrows.erase b }
  | some slot =>
    { s with
      slots := updateWhere (fun slot => slot.nsId == b.nsId) (fun slot => { slot with refcount := slot.refcount - 1 })
        s.slots
      borrows := s.borrows.erase b
      reaping := if slot.refcount = 1 ∧ slot.pendingDelete = true then b.nsId :: s.reaping else s.reaping }

/-- The second section of `Release`: re-verified under the exclusive lock. -/
def releaseReap (s : State) (nsId : String) : State :=
  let s := { s with reaping := s.reaping.erase nsId }
  match slotOf s nsId with
  | none => s
  | some slot => if slot.pendingDelete = true ∧ slot.refcount = 0 then erase s nsId else s

/-- `EvictForDelete`: deferred to the last `Release` while readers are in flight. -/
def evictForDelete (s : State) (nsId : String) : State :=
  match slotOf s nsId with
  | none => s
  | some slot =>
    if 0 < slot.refcount then
      { s with slots := updateWhere (fun slot => slot.nsId == nsId) (fun slot => { slot with pendingDelete := true }) s.slots }
    else erase s nsId

/-- `ReloadNamespace`, from the load's outcome on: only the bundle of the slot is assigned. -/
def reloadNamespace (s : State) (nsId : String) (loaded : Bool) : State × Except PoolErrorCode Unit :=
  if !loaded then (s, .error .nsLoadFailed)
  else
    let s := install s nsId id
    ({ s with startupFailedNamespaces := s.startupFailedNamespaces.filter (· != nsId) }, .ok ())

/-! ## The pool and its borrowers -/

inductive Act
  | admitCreate (nsId : String) (estimated used : Nat) (loaded : Bool)
  | acquire (nsId : String)
  | releaseDec (b : Borrow)
  | releaseReap (nsId : String)
  | evictForDelete (nsId : String)
  | reloadNamespace (nsId : String) (loaded : Bool)

/-- Each borrower releases once, and only what it has acquired. -/
def step (cfg : Config) (s : State) : Act → Option State
  | .admitCreate nsId estimated used loaded => some (admitCreate cfg s nsId estimated used loaded).1
  | .acquire nsId => some (acquire s nsId).1
  | .releaseDec b => if b ∈ s.borrows then some (releaseDec s b) else none
  | .releaseReap nsId => if nsId ∈ s.reaping then some (releaseReap s nsId) else none
  | .evictForDelete nsId => some (evictForDelete s nsId)
  | .reloadNamespace nsId loaded => some (reloadNamespace s nsId loaded).1

end Cortrix.Resource.NamespacePool
