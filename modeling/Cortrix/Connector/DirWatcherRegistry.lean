import Cortrix.Connector.DirectoryImporter

/-!
# The watchers of the directories

`DirWatcherRegistry`: one `FileWatcher` per directory, whose event thread fans a batch out to the importers of the
directory. The registry mutex `mu_` and every event thread move by steps of their own.

* `step` : any number of calls, and the event threads.
-/

namespace Cortrix.Connector.DirWatcherRegistry
open Lib

/-- A `DirectoryImporter`, by its identity and its `WatchDirConfig`. -/
structure Importer where
  id : Nat
  dataDir : String
  namespaceName : String
  deriving DecidableEq

/-- `WatcherSlot`, at the address `node`. The watcher is its `running_` flag, `none` for a null pointer. -/
structure WatcherSlot where
  node : Nat
  canonicalDir : String
  targetNamespaces : List String := []
  recursive : Bool
  watcher : Option Bool := none
  importers : List Importer := []

def WatcherSlot.isRunning (slot : WatcherSlot) : Bool := slot.watcher = some true

structure WatchInfo where
  directory : String
  targetNamespaces : List String
  watching : Bool
  subscriberCount : Nat
  recursive : Bool

def makeInfo (slot : WatcherSlot) : WatchInfo where
  directory := slot.canonicalDir
  targetNamespaces := slot.targetNamespaces
  watching := slot.isRunning
  subscriberCount := slot.targetNamespaces.length
  recursive := slot.recursive

/-! ## The event thread -/

inductive EventPc
  | polling
  /-- In `FanOutEvents` with the events that survived the filter, at the mutex. -/
  | fanOut (filtered : List FileEvent)
  /-- Past the mutex, with the snapshot of the importers that are still to handle the batch. -/
  | dispatching (filtered : List FileEvent) (targets : List Importer)
  | exited
  deriving DecidableEq

def EventPc.awaitsMutex : EventPc → Bool
  | .fanOut _ => true
  | _ => false

def EventPc.targets : EventPc → List Importer
  | .dispatching _ targets => targets
  | _ => []

/-- The thread that `Start` made for the watcher of a slot; `signalled` once `Stop` has cleared `running_` and written
to the pipe. -/
structure EventThread where
  slot : Nat
  signalled : Bool := false
  pc : EventPc := .polling

/-- The loop goes on when the targets are done. -/
def dispatch (filtered : List FileEvent) : List Importer → EventPc
  | [] => .polling
  | targets => .dispatching filtered targets

/-! ## The calls -/

/-- A call. A directory comes with what `CanonicalDir` makes of it at the call, `none` when it does not resolve. -/
inductive Op
  | subscribe (directory : String) (canonicalDir : Option String) (targetNamespaces : List String)
      (recursive autostart : Bool)
  | unsubscribe (directory : String) (canonicalDir : Option String) (namespaceId : String)
  | removeWatch (directory : String) (canonicalDir : Option String) (deleteDocs : Bool)
  | startAll
  | stopAll
  | listWatches

/-- What is left to do under the mutex. -/
inductive Instr
  /-- `importer->Start()`, the initial scan; `StartAll` skips an importer that is watching. -/
  | start (importer : Importer) (skipWatching : Bool)
  | ensureWatcherStarted (node : Nat)
  /-- `if (slot->watcher && slot->watcher->IsRunning()) slot->watcher->Stop()`. -/
  | stopWatcher (node : Nat)
  | deleteAllDocs (importer : Importer)
  | stopImporter (importer : Importer)
  /-- `slots_.erase`. -/
  | erase (node : Nat)

structure Body where
  op : Op
  todo : List Instr := []
  /-- The slot whose watcher it is stopping, while it waits for the event thread. -/
  joining : Option Nat := none
  status : StatusCode := .ok
  /-- The directory whose watcher it has destroyed. -/
  destroyed : Option String := none
  deletedDocs : Int := 0
  watches : List WatchInfo := []

structure Response where
  status : StatusCode
  deletedDocs : Int := 0
  watches : List WatchInfo := []

structure State where
  slots : List WatcherSlot := []
  threads : List EventThread := []
  /-- The importers with `running_` set. -/
  watching : List Nat := []
  waiting : List Op := []
  holder : Option Body := none
  returned : List Response := []
  /-- The next address or importer identity. -/
  fresh : Nat := 0

def findSlot (canonicalDir : String) (slots : List WatcherSlot) : Option WatcherSlot :=
  lookup WatcherSlot.canonicalDir canonicalDir slots

/-! ## Under the mutex, up to the first importer or watcher -/

/-- The namespaces that a subscription adds to those of the slot. -/
def newNamespaces (present : List String) : List String → List String
  | [] => []
  | ns :: rest =>
    if ns = "" ∨ ns ∈ present then newNamespaces present rest else ns :: newNamespaces (present ++ [ns]) rest

def makeImporters (canonicalDir : String) : Nat → List String → List Importer
  | _, [] => []
  | id, ns :: rest => ⟨id, canonicalDir, ns⟩ :: makeImporters canonicalDir (id + 1) rest

variable (s : State)

def subscribe (body : Body) (canonicalDir : String) (targetNamespaces : List String) (recursive autostart : Bool) :
    State :=
  let slot := (findSlot canonicalDir s.slots).getD { node := s.fresh, canonicalDir, recursive }
  let added := newNamespaces slot.targetNamespaces targetNamespaces
  let newImporters := makeImporters canonicalDir (s.fresh + 1) added
  let slot := { slot with
    targetNamespaces := slot.targetNamespaces ++ added
    importers := slot.importers ++ newImporters }
  let todo :=
    if autostart then newImporters.map (Instr.start · false) ++ [.ensureWatcherStarted slot.node] else []
  { s with
    slots := upsertRow WatcherSlot.canonicalDir slot s.slots
    holder := some { body with todo := todo }
    fresh := s.fresh + 1 + added.length }

def unsubscribe (body : Body) (key namespaceId : String) : State :=
  match findSlot key s.slots with
  | none => { s with holder := some { body with status := .notFound } }
  | some slot =>
    if namespaceId ∈ slot.targetNamespaces then
      let idx := slot.targetNamespaces.idxOf namespaceId
      let stopped := (slot.importers[idx]?).map Importer.id
      let slot' := { slot with
        targetNamespaces := slot.targetNamespaces.eraseIdx idx
        importers := slot.importers.eraseIdx idx }
      { s with
        slots := updateWhere (fun x => x.canonicalDir == key) (fun _ => slot') s.slots
        watching := s.watching.filter fun id => stopped != some id
        holder := some { body with
          todo := if slot'.targetNamespaces = [] then [.stopWatcher slot.node, .erase slot.node] else [] } }
    else { s with holder := some { body with status := .notFound } }

def removeWatch (body : Body) (key : String) (deleteDocs : Bool) : State :=
  match findSlot key s.slots with
  | none => { s with holder := some { body with status := .notFound } }
  | some slot =>
    let importers := slot.importers.flatMap fun importer =>
      if deleteDocs then [Instr.deleteAllDocs importer, .stopImporter importer] else [.stopImporter importer]
    { s with holder := some { body with todo := .stopWatcher slot.node :: importers ++ [.erase slot.node] } }

def startAll (body : Body) : State :=
  { s with holder := some { body with
    todo := s.slots.flatMap fun slot => slot.importers.map (Instr.start · true) ++ [.ensureWatcherStarted slot.node] } }

def stopAll (body : Body) : State :=
  { s with holder := some { body with
    todo := s.slots.flatMap fun slot => .stopWatcher slot.node :: slot.importers.map Instr.stopImporter } }

def listWatches (body : Body) : State := { s with holder := some { body with watches := s.slots.map makeInfo } }

/-- What a call does when it gets the mutex. A directory that no longer resolves is looked up by its raw path. -/
def enter (op : Op) : State :=
  let body : Body := { op }
  match op with
  | .subscribe directory canonicalDir targetNamespaces recursive autostart =>
    subscribe s body (canonicalDir.getD directory) targetNamespaces recursive autostart
  | .unsubscribe directory canonicalDir namespaceId => unsubscribe s body (canonicalDir.getD directory) namespaceId
  | .removeWatch directory canonicalDir deleteDocs => removeWatch s body (canonicalDir.getD directory) deleteDocs
  | .startAll => startAll s body
  | .stopAll => stopAll s body
  | .listWatches => listWatches s body

/-! ## The instructions -/

structure Outcome where
  started : Bool := true
  initialized : Bool := true
  launched : Bool := true
  deleted : Int := 0

def slotAt (node : Nat) (slots : List WatcherSlot) : Option WatcherSlot := lookup WatcherSlot.node node slots

def setWatcher (node : Nat) (watcher : Option Bool) (slots : List WatcherSlot) : List WatcherSlot :=
  updateWhere (fun slot => slot.node == node) (fun slot => { slot with watcher := watcher }) slots

/-- `EnsureWatcherStarted`. A watcher that does not come up is dropped; only `Subscribe` reports it. -/
def ensureWatcherStarted (body : Body) (node : Nat) (outcome : Outcome) : State :=
  if (slotAt node s.slots).any WatcherSlot.isRunning then { s with holder := some body }
  else if outcome.initialized && outcome.launched then
    { s with
      slots := setWatcher node (some true) s.slots
      threads := s.threads ++ [{ slot := node }]
      holder := some body }
  else
    let status := match body.op with
      | .subscribe _ _ _ _ _ => .internal
      | _ => body.status
    { s with slots := setWatcher node none s.slots, holder := some { body with status := status } }

def stopWatcher (body : Body) (node : Nat) : State :=
  if (slotAt node s.slots).any WatcherSlot.isRunning then
    { s with
      slots := setWatcher node (some false) s.slots
      threads := updateWhere (fun th => th.slot == node) (fun th => { th with signalled := true }) s.threads
      holder := some { body with joining := some node } }
  else { s with holder := some body }

def exec (body : Body) (outcome : Outcome) : Instr → State
  | .start importer skipWatching =>
    if skipWatching && importer.id ∈ s.watching then { s with holder := some body }
    else
      { s with
        watching := if outcome.started then importer.id :: s.watching else s.watching
        holder := some body }
  | .ensureWatcherStarted node => ensureWatcherStarted s body node outcome
  | .stopWatcher node => stopWatcher s body node
  | .deleteAllDocs _ =>
    { s with holder := some { body with deletedDocs := body.deletedDocs + max outcome.deleted 0 } }
  | .stopImporter importer =>
    { s with watching := s.watching.filter fun id => importer.id != id, holder := some body }
  | .erase node =>
    { s with
      slots := deleteWhere (fun slot => slot.node == node) s.slots
      holder := some { body with destroyed := (slotAt node s.slots).map WatcherSlot.canonicalDir } }

/-! ## The parties -/

inductive Act
  | invoke (op : Op)
  | lock (i : Nat)
  /-- The next instruction of the call that holds the mutex. -/
  | run (outcome : Outcome)
  | join
  | unlock
  /-- The event thread returns from `poll` and reads a batch. -/
  | batch (node : Nat) (events : List FileEvent)
  | snapshot (node : Nat)
  | handle (node : Nat)
  | leave (node : Nat)

/-- What a call is refused with before it takes the mutex. -/
def refused : Op → Option StatusCode
  | .subscribe _ canonicalDir targetNamespaces _ _ =>
    if targetNamespaces = [] then some .invalidArgument
    else if canonicalDir = none then some .notFound
    else none
  | _ => none

def threadOf (node : Nat) (threads : List EventThread) : Option EventThread := lookup EventThread.slot node threads

def setPc (node : Nat) (pc : EventPc) (threads : List EventThread) : List EventThread :=
  updateWhere (fun th => th.slot == node) (fun th => { th with pc := pc }) threads

def moveTo (node : Nat) (pc : EventPc) : State := { s with threads := setPc node pc s.threads }

def importersAt (node : Nat) : List Importer := ((slotAt node s.slots).map WatcherSlot.importers).getD []

def survives (shouldImport : String → Bool) (ev : FileEvent) : Bool := !ev.isDirectory && shouldImport ev.path

/-- Where a batch takes the event thread: to the mutex, unless nothing is left of it. -/
def afterFilter (shouldImport : String → Bool) (events : List FileEvent) : EventPc :=
  match events.filter (survives shouldImport) with
  | [] => .polling
  | filtered => .fanOut filtered

def threadStep (shouldImport : String → Bool) (s : State) (th : EventThread) : Act → Option State
  | .batch node events =>
    if th.pc = .polling ∧ th.signalled = false then some (moveTo s node (afterFilter shouldImport events)) else none
  | .snapshot node =>
    match th.pc, s.holder with
    | .fanOut filtered, none => some (moveTo s node (dispatch filtered (importersAt s node)))
    | _, _ => none
  | .handle node =>
    match th.pc with
    | .dispatching filtered (_ :: targets) => some (moveTo s node (dispatch filtered targets))
    | _ => none
  | .leave node => if th.pc = .polling ∧ th.signalled = true then some (moveTo s node .exited) else none
  | _ => none

def bodyStep (body : Body) : Act → Option State
  | .run outcome =>
    match body.joining, body.todo with
    | none, instr :: todo => some (exec s { body with todo := todo } outcome instr)
    | _, _ => none
  | .join =>
    match body.joining with
    | some node =>
      if (threadOf node s.threads).any fun th => th.pc = .exited then
        some { s with
          threads := deleteWhere (fun th => th.slot == node) s.threads
          holder := some { body with joining := none } }
      else none
    | none => none
  | .unlock =>
    if body.joining = none ∧ body.todo = [] then
      some { s with holder := none, returned := s.returned ++ [⟨body.status, body.deletedDocs, body.watches⟩] }
    else none
  | _ => none

def step (shouldImport : String → Bool) (s : State) (a : Act) : Option State :=
  match a with
  | .invoke op =>
    match refused op with
    | some code => some { s with returned := s.returned ++ [{ status := code }] }
    | none => some { s with waiting := s.waiting ++ [op] }
  | .lock i =>
    match s.holder, s.waiting[i]? with
    | none, some op => some (enter { s with waiting := s.waiting.eraseIdx i } op)
    | _, _ => none
  | .run _ => s.holder.bind fun body => bodyStep s body a
  | .join => s.holder.bind fun body => bodyStep s body a
  | .unlock => s.holder.bind fun body => bodyStep s body a
  | .batch node _ => (threadOf node s.threads).bind fun th => threadStep shouldImport s th a
  | .snapshot node => (threadOf node s.threads).bind fun th => threadStep shouldImport s th a
  | .handle node => (threadOf node s.threads).bind fun th => threadStep shouldImport s th a
  | .leave node => (threadOf node s.threads).bind fun th => threadStep shouldImport s th a

end Cortrix.Connector.DirWatcherRegistry
