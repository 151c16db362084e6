import Cortrix.Catalog.DefaultNsRouter
import Cortrix.Lib.Locks

/-!
# Router and pool together

The calls `CreateNamespace`, `DeleteNamespace`, `GetActiveUnit`, `Acquire` and `Release` of any number of threads, on
one `DefaultINSRouter` with its mutex `mu_` and one `DefaultNamespacePool` with its `pool_mutex_`.

* `step` : a call begins, gets the lock it waits for, or runs to its next lock operation.
-/

namespace Cortrix.Catalog.NamespaceLifecycle
open Lib Resource
open DefaultINSRouter (Router NSMetadata CatalogStatus UnitDescriptor insertNamespaceCatalog removeNamespaceCatalogRows
  deleteNamespaceRow)
open NamespacePool (PoolErrorCode Borrow slotOf)

inductive Lock
  | mu
  | poolMutex
  deriving DecidableEq

inductive CreatePc
  /-- `InsertNamespaceCatalog`, at `mu_` and with it. -/
  | insert
  | inserting
  /-- `AdmitCreate`, at `pool_mutex_` and with it. -/
  | admitCreate
  | admitting
  /-- `GetActiveUnit` of the load, at `mu_` and with it; `pool_mutex_` is held. -/
  | load
  | loading
  /-- The load has its unit; `pool_mutex_` is held. -/
  | install (unit : Except CatalogStatus UnitDescriptor)
  /-- `RemoveNamespaceCatalogRows`, at `mu_` and with it. -/
  | remove (code : PoolErrorCode)
  | removing (code : PoolErrorCode)
  deriving DecidableEq

inductive DeletePc
  | delete
  | deleting
  /-- `EvictForDelete`, at `pool_mutex_` and with it; `mu_` is held. -/
  | evict
  | evicting
  /-- On its return, with `mu_`. -/
  | evicted
  deriving DecidableEq

inductive SectionPc
  | enter
  | inside
  deriving DecidableEq

/-- Where a `Release` is: its first section, and the reap of the last reader. -/
inductive ReleasePc
  | dec
  | decrementing
  | reap
  | reaping
  deriving DecidableEq

inductive Call
  | create (m : NSMetadata) (pc : CreatePc)
  | delete (nsId : String) (pc : DeletePc)
  | getActiveUnit (nsId : String) (pc : SectionPc)
  | acquire (nsId : String) (pc : SectionPc)
  | release (b : Borrow) (pc : ReleasePc)
  | returned
  deriving DecidableEq

def onMu : Access Lock := ⟨.mu, true⟩

def onPool : Access Lock := ⟨.poolMutex, true⟩

def onPoolShared : Access Lock := ⟨.poolMutex, false⟩

/-- The lock a call waits for, with the call once it has it. -/
def Call.next : Call → Option (Access Lock × Call)
  | .create m .insert => some (onMu, .create m .inserting)
  | .create m .admitCreate => some (onPool, .create m .admitting)
  | .create m .load => some (onMu, .create m .loading)
  | .create m (.remove code) => some (onMu, .create m (.removing code))
  | .delete nsId .delete => some (onMu, .delete nsId .deleting)
  | .delete nsId .evict => some (onPool, .delete nsId .evicting)
  | .getActiveUnit nsId .enter => some (onMu, .getActiveUnit nsId .inside)
  | .acquire nsId .enter => some (onPoolShared, .acquire nsId .inside)
  | .release b .dec => some (onPoolShared, .release b .decrementing)
  | .release b .reap => some (onPool, .release b .reaping)
  | _ => none

def Call.wants (c : Call) : Option (Access Lock) := c.next.map Prod.fst

def Call.holds : Call → List (Access Lock)
  | .create _ .inserting => [onMu]
  | .create _ .admitting => [onPool]
  | .create _ .load => [onPool]
  | .create _ .loading => [onPool, onMu]
  | .create _ (.install _) => [onPool]
  | .create _ (.removing _) => [onMu]
  | .delete _ .deleting => [onMu]
  | .delete _ .evict => [onMu]
  | .delete _ .evicting => [onMu, onPool]
  | .delete _ .evicted => [onMu]
  | .getActiveUnit _ .inside => [onMu]
  | .acquire _ .inside => [onPoolShared]
  | .release _ .decrementing => [onPoolShared]
  | .release _ .reaping => [onPool]
  | _ => []

/-! ## The sections of `AdmitCreate` -/

/-- The gates; `true` when the namespace is resident already and there is nothing to load. -/
def gate (cfg : NamespacePool.Config) (pool : NamespacePool.State) (nsId : String) (estimated used : Nat) :
    Except PoolErrorCode Bool :=
  if NamespacePool.nsCountExceeded cfg pool nsId then .error .nsQuotaExceeded
  else if NamespacePool.memoryExceeded cfg pool nsId estimated used then .error .nsResourceBudgetExceeded
  else .ok (NamespacePool.alreadyResident pool nsId)

def installSlot (pool : NamespacePool.State) (nsId : String) : NamespacePool.State :=
  NamespacePool.install pool nsId fun slot => { slot with refcount := 0, pendingDelete := false }

/-- The sections together are `AdmitCreate`. -/
theorem admitCreate_eq_gate (cfg : NamespacePool.Config) (pool : NamespacePool.State) (nsId : String)
    (estimated used : Nat) (loaded : Bool) :
    NamespacePool.admitCreate cfg pool nsId estimated used loaded =
      match gate cfg pool nsId estimated used with
      | .error code => (pool, .error code)
      | .ok true => (pool, .ok ())
      | .ok false => if loaded then (installSlot pool nsId, .ok ()) else (pool, .error .nsLoadFailed) := by
  unfold NamespacePool.admitCreate gate installSlot
  split
  · rfl
  · split
    · rfl
    · rcases NamespacePool.alreadyResident pool nsId with - | -
      · rcases loaded with - | - <;> rfl
      · rfl

/-! ## The system -/

structure State where
  router : Router
  pool : NamespacePool.State
  calls : List Call := []

/-- Of a borrow, the releases that have not dropped it yet. -/
def Call.releases (b : Borrow) : Call → Bool
  | .release b' .dec => b' = b
  | .release b' .decrementing => b' = b
  | _ => false

inductive Act
  | createNamespace (m : NSMetadata)
  | deleteNamespace (nsId : String)
  | getActiveUnit (nsId : String)
  | acquire (nsId : String)
  | release (b : Borrow)
  /-- Call `i` gets the lock it waits for. -/
  | lock (i : Nat)
  /-- Call `i` runs to its next lock operation, at a moment of the clocks and with the memory that is in use. -/
  | run (i : Nat) (now : Int) (used : Nat)

/-- A call that begins. A holder releases once what it has borrowed. -/
def invoke (s : State) : Act → Option Call
  | .createNamespace m => some (if m.namespaceId = "" then .returned else .create m .insert)
  | .deleteNamespace nsId => some (.delete nsId .delete)
  | .getActiveUnit nsId => some (.getActiveUnit nsId .enter)
  | .acquire nsId => some (.acquire nsId .enter)
  | .release b => if s.calls.countP (Call.releases b) < s.pool.borrows.count b then some (.release b .dec) else none
  | .lock _ => none
  | .run _ _ _ => none

def maybeReap (pool : NamespacePool.State) (b : Borrow) : Bool :=
  (slotOf pool b.nsId).any fun slot => slot.refcount = 1 && slot.pendingDelete

def runCreate (cfg : NamespacePool.Config) (s : State) (m : NSMetadata) (now : Int) (used : Nat) :
    CreatePc → Option (State × Call)
  | .inserting =>
    match insertNamespaceCatalog s.router.catalog m now with
    | .error _ => some (s, .returned)
    | .ok c => some ({ s with router := { s.router with catalog := c } }, .create m .admitCreate)
  | .admitting =>
    match gate cfg s.pool m.namespaceId 0 used with
    | .error code => some (s, .create m (.remove code))
    | .ok true => some (s, .returned)
    | .ok false => some (s, .create m .load)
  | .loading =>
    match s.router.getActiveUnit m.namespaceId now with
    | (unit, router) => some ({ s with router := router }, .create m (.install unit))
  | .install (.error _) => some (s, .create m (.remove .nsLoadFailed))
  | .install (.ok _) => some ({ s with pool := installSlot s.pool m.namespaceId }, .returned)
  | .removing _ => some ({ s with router := removeNamespaceCatalogRows s.router m.namespaceId }, .returned)
  | _ => none

def runDelete (s : State) (nsId : String) : DeletePc → Option (State × Call)
  | .deleting =>
    match deleteNamespaceRow s.router nsId with
    | (router, .ok ()) => some ({ s with router := router }, .delete nsId .evict)
    | (router, .error _) => some ({ s with router := router }, .returned)
  | .evicting => some ({ s with pool := NamespacePool.evictForDelete s.pool nsId }, .delete nsId .evicted)
  | .evicted => some (s, .returned)
  | _ => none

def runRelease (s : State) (b : Borrow) : ReleasePc → Option (State × Call)
  | .decrementing =>
    if b ∈ s.pool.borrows then
      some ({ s with pool := NamespacePool.releaseDec s.pool b },
        if maybeReap s.pool b then .release b .reap else .returned)
    else none
  | .reaping => some ({ s with pool := NamespacePool.releaseReap s.pool b.nsId }, .returned)
  | _ => none

/-- A call runs to its next lock operation: the state with its effect, and where it is then. -/
def runCall (cfg : NamespacePool.Config) (s : State) (now : Int) (used : Nat) : Call → Option (State × Call)
  | .create m pc => runCreate cfg s m now used pc
  | .delete nsId pc => runDelete s nsId pc
  | .getActiveUnit nsId .inside => some ({ s with router := (s.router.getActiveUnit nsId now).2 }, .returned)
  | .acquire nsId .inside => some ({ s with pool := (NamespacePool.acquire s.pool nsId).1 }, .returned)
  | .release b pc => runRelease s b pc
  | _ => none

def step (cfg : NamespacePool.Config) (s : State) (a : Act) : Option State :=
  match a with
  | .lock i =>
    (s.calls[i]?).bind fun call => call.next.bind fun (access, call') =>
      if granted Call.holds s.calls access then some { s with calls := s.calls.set i call' } else none
  | .run i now used =>
    (s.calls[i]?).bind fun call => (runCall cfg s now used call).map fun (s', call') =>
      { s' with calls := s.calls.set i call' }
  | _ => (invoke s a).map fun call => { s with calls := s.calls ++ [call] }

end Cortrix.Catalog.NamespaceLifecycle
