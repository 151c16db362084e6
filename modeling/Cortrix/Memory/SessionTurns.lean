import Cortrix.Common.Status
import Cortrix.Memory.MemoryTurns
import Cortrix.Spc.SpcTaskQueue

/-!
# The turns of memory sessions under the ingest workers

The queue, the workers' calls of the memory path of `SPCPipeline::Process` step by step, and the rows, points and
transactions of one namespace. All turns of a session are blocks of one document.
-/

namespace Cortrix.Memory
open Lib Metadata Query Spc Store.Documents

namespace SessionTurns

/-! ## Tasks and workers -/

/-- One namespace, and the task objects by pointer with the turns they carry. -/
structure Config where
  namespaceName : String
  maxSize : Int
  tasks : SPCTasks
  queryText : Nat → String
  responseText : Nat → String
  metadata : Nat → Metadata := fun _ => []

/-- The task is a turn of a session of this namespace. -/
def Config.isTurn (cfg : Config) (p : Nat) : Bool :=
  (cfg.tasks p).sourceType == "memory_session" && (cfg.tasks p).namespaceName == cfg.namespaceName

def Config.docId (cfg : Config) (p : Nat) : String := (cfg.tasks p).docId

def Config.block (cfg : Config) (p : Nat) (blockId : UInt64) : CortrixBlock :=
  MemoryTurns.assemble (cfg.docId p) (MemoryTurns.buildMemoryContent (cfg.queryText p) (cfg.responseText p))
    (cfg.metadata p) blockId

/-- Where a worker stands with a turn. -/
inductive Stage
  | popped
  | processing
  /-- `BeginWrite` has reserved the document, its record is to be appended. -/
  | reserved (blockId : UInt64)
  | begun (blockId : UInt64)
  | pointed (blockId : UInt64)
  | inserted (blockId : UInt64)
  /-- `Commit` has appended its record and is to release the document. -/
  | recorded (blockId : UInt64)
  | committed (blockId : UInt64)
  | done (blockId : UInt64)
  /-- A write failed and `Rollback` is to be called. -/
  | failing (blockId : UInt64) (errorMessage : String)
  /-- The error is to be written to the document. -/
  | failed (errorMessage : String)
  | ended

/-- The worker has nothing left to do for the turn. -/
def Stage.final : Stage → Bool
  | .done _ => true
  | .ended => true
  | _ => false

inductive TurnAct
  /-- Up to the `processing` write: whether the namespace is acquired and the status written. -/
  | start (acquired written : Bool)
  | embedFails (errorMessage : String)
  /-- `Assemble` draws the id, and `BeginWrite` asks for the document. -/
  | reserve (blockId : UInt64)
  /-- The record is appended, or why not. -/
  | append (error : Option String)
  | addPoints (error : Option String)
  | insert (ok : Bool)
  | commit (error : Option String)
  | release
  /-- Whether the record is appended, and whether the delete and the mark take effect. -/
  | rollback (appended rowGone pointGone : Bool)
  /-- `MarkDocumentReady`. -/
  | publish (ok marker : Bool) (nowMs : Int)
  | markError (written : Bool)

/-- A transaction in `pending.wal` that has no COMMITTED record. -/
structure Pending where
  blockId : UInt64
  rolledBack : Bool := false

structure State where
  queue : TaskQueue.State
  stages : Nat → Stage := fun _ => .popped
  /-- The documents locked by turns, and by other work. -/
  active : List String := []
  others : List String := []
  pending : List Pending := []
  /-- The blocks whose transaction had a COMMITTED record. -/
  recorded : List UInt64 := []
  docs : List Doc := []
  blocks : List CortrixBlock := []
  points : List UInt64 := []
  /-- The ids drawn so far, each with its turn. -/
  drawn : List (UInt64 × Nat) := []

def init (cfg : Config) : State := { queue := TaskQueue.start cfg.maxSize cfg.tasks }

def State.locked (s : State) (docId : String) : Bool := s.active.contains docId || s.others.contains docId

def State.goTo (s : State) (p : Nat) (stage : Stage) : State := { s with stages := Function.update s.stages p stage }

def isSession (d : Doc) : Bool := d.sourceType == "memory_session"

/-- The row is a live document of the turn's session. -/
def Config.sessionOf (cfg : Config) (p : Nat) (d : Doc) : Bool :=
  d.docId == cfg.docId p && isSession d && d.sourcePath == (cfg.tasks p).sourcePath && live d

def sessionDoc (docId sessionId createdAt : String) : Doc where
  docId := docId
  sourceType := "memory_session"
  sourcePath := sessionId
  status := .ready
  errorMessage := ""
  createdAt := createdAt
  deletedAt := none
  deletedFromStatus := none

/-- `doc_publish_version`: a row that is missing or deleted rolls it back. -/
def docPublishVersion (marker : Bool) (docId : String) (nowMs : Int) (t : List Doc) : List Doc :=
  let (t', rc) := updateStatusLocked docId .ready "" t
  if rc = 0 then (retireOlderVersionsLocked marker docId nowMs t').1 else t

def unused (s : State) (blockId : UInt64) : Bool :=
  !(s.drawn.any fun x => x.1 == blockId) && !s.points.contains blockId && !s.blocks.any fun b => b.blockId == blockId

def turnStep (cfg : Config) (s : State) (p : Nat) (a : TurnAct) : Option State :=
  let docId := cfg.docId p
  match s.stages p, a with
  | .popped, .start acquired written =>
    if (s.queue.tasks p).cancelled || !acquired then some (s.goTo p .ended)
    else if !written then some (s.goTo p .processing)
    -- the write refuses a deleted row, and the task ends
    else if (updateStatusLocked docId .processing "" s.docs).2 = -2 ∧ s.docs.any (fun d => d.docId == docId && !live d) then
      some (s.goTo p .ended)
    else some ({ s with docs := (updateStatusLocked docId .processing "" s.docs).1 }.goTo p .processing)
  | .processing, .embedFails msg => some (s.goTo p (.failed ("embedding failed: " ++ msg)))
  | .processing, .reserve blockId =>
    if !unused s blockId then none
    else
      let drawn := (blockId, p) :: s.drawn
      if s.locked docId then
        let bw := pwlStatus .alreadyExists PwlErrors.kDocWriteInProgress
          ("doc_id already has a live transaction: " ++ docId)
        some ({ s with drawn := drawn }.goTo p (.failed ("BeginWrite (memory): " ++ bw.message)))
      else some ({ s with drawn := drawn, active := docId :: s.active }.goTo p (.reserved blockId))
  | .reserved blockId, .append none =>
    some ({ s with pending := ⟨blockId, false⟩ :: s.pending }.goTo p (.begun blockId))
  | .reserved _, .append (some e) =>
    let bw := pwlStatus .unavailable PwlErrors.kWriteFailed ("append PENDING failed: " ++ e)
    some ({ s with active := s.active.erase docId }.goTo p (.failed ("BeginWrite (memory): " ++ bw.message)))
  | .begun blockId, .addPoints none => some ({ s with points := blockId :: s.points }.goTo p (.pointed blockId))
  | .begun blockId, .addPoints (some e) => some (s.goTo p (.failing blockId ("AddPoints: " ++ e)))
  | .pointed blockId, .insert ok =>
    match (if ok then insertRow CortrixBlock.blockId (cfg.block p blockId) s.blocks else none) with
    | some blocks => some ({ s with blocks := blocks }.goTo p (.inserted blockId))
    | none => some (s.goTo p (.failing blockId "block_insert failed for memory block"))
  | .inserted blockId, .commit none =>
    some ({ s with
      recorded := blockId :: s.recorded
      pending := s.pending.filter fun x => x.blockId != blockId }.goTo p (.recorded blockId))
  | .inserted _, .commit (some e) =>
    -- the document is released all the same
    let cm := pwlStatus .unavailable PwlErrors.kWriteFailed ("append COMMITTED failed after retries: " ++ e)
    some ({ s with active := s.active.erase docId }.goTo p (.failed ("Commit (memory): " ++ cm.message)))
  | .recorded blockId, .release => some ({ s with active := s.active.erase docId }.goTo p (.committed blockId))
  | .failing blockId msg, .rollback appended rowGone pointGone =>
    -- a ROLLBACK record that is not appended leaves the document locked
    if !appended then some (s.goTo p (.failed msg))
    else
      some ({ s with
        active := s.active.erase docId
        pending := updateWhere (fun x => x.blockId == blockId) (fun x => { x with rolledBack := true }) s.pending
        blocks := if rowGone then deleteWhere (fun b => b.blockId == blockId) s.blocks else s.blocks
        points := if pointGone then s.points.filter (· != blockId) else s.points }.goTo p (.failed msg))
  | .committed blockId, .publish ok marker nowMs =>
    -- for a session a failed ready write is logged, and the task is done
    some ({ s with docs := if ok then docPublishVersion marker docId nowMs s.docs else s.docs }.goTo p (.done blockId))
  | .failed msg, .markError written =>
    some ({ s with docs := if written then (updateStatusLocked docId .error msg s.docs).1 else s.docs }.goTo p .ended)
  | _, _ => none

/-! ## A crash and the load after it -/

/-- What `DropCrashedDocVectors` and `RecoverCrashedDocs` take for the rest of an unfinished ingest. -/
def crashedDoc (docs : List Doc) (docId : String) : Bool :=
  docs.any fun d => d.docId == docId && (d.status == .processing || d.status == .deleting)

/-- `AllStoresHave` for a turn's transaction. -/
def allStoresHave (s : State) (blockId : UInt64) : Bool :=
  s.blocks.any (fun b => b.blockId == blockId) && s.points.contains blockId

/-- The turns' transactions `Recover` cleans up. -/
def unfinished (s : State) : List UInt64 :=
  (s.pending.filter fun x => x.rolledBack || !allStoresHave s x.blockId).map (·.blockId)

/-- The ones it finds complete and finalizes as COMMITTED. -/
def inferred (s : State) : List UInt64 :=
  (s.pending.filter fun x => !(x.rolledBack || !allStoresHave s x.blockId)).map (·.blockId)

/-- The process dies and the namespace is loaded again. The flags say which deletes and marks take effect. -/
def loadStep (s : State) (rowGone pointGone : UInt64 → Bool) : State :=
  let undo := unfinished s
  let blocks := deleteWhere (fun b => undo.contains b.blockId && rowGone b.blockId) s.blocks
  let crashed := (blocks.filter fun b => crashedDoc s.docs b.docId).map (·.blockId)
  let kept := deleteWhere (fun b => crashedDoc s.docs b.docId) blocks
  { s with
    queue := { s.queue with queue := { maxSize := s.queue.queue.maxSize }, working := [], handedOut := s.queue.accepted }
    active := []
    others := []
    pending := []
    recorded := s.recorded ++ (inferred s).filter fun id => kept.any fun b => b.blockId == id
    docs := deleteWhere (fun d => d.status == .deleting) (docRecoverProcessing s.docs)
    blocks := kept
    points := s.points.filter fun id => !((undo.contains id || crashed.contains id) && pointGone id) }

/-! ## Steps -/

inductive Act
  /-- `FindOrCreateSessionDoc` creates the document of a session. -/
  | openSession (docId sessionId createdAt : String)
  /-- `Submit` of a task object, and the order the sort leaves. -/
  | submit (p : Nat) (order : List Nat)
  | pop
  | cancelQueuedVersions (namespaceName sourceType sourcePath : String)
  /-- Work that does not come through the queue. -/
  | beginRunning (p : Nat)
  | turn (p : Nat) (a : TurnAct)
  | finishTask (p : Nat)
  | load (rowGone pointGone : UInt64 → Bool)
  | lock (docId : String)
  | unlock (docId : String)
  | documents (docs : List Doc)
  | addBlock (b : CortrixBlock)
  | addPoint (blockId : UInt64)
  | deleteBlock (blockId : UInt64)
  | deletePoint (blockId : UInt64)

def State.queued (s : State) (a : TaskQueue.Act) : Option State :=
  (TaskQueue.step s.queue a).map fun queue => { s with queue := queue }

/-- The id is one of a turn's block. -/
def State.drew (s : State) (blockId : UInt64) : Bool := s.drawn.any fun x => x.1 == blockId

def step (cfg : Config) (s : State) : Act → Option State
  | .openSession docId sessionId createdAt =>
    if docId = "" then none else some { s with docs := (docCreate (sessionDoc docId sessionId createdAt) s.docs).1 }
  | .submit p order =>
    if cfg.isTurn p && !(s.docs.any (cfg.sessionOf p) && !(cfg.tasks p).cancelled) then none else s.queued (.push p order)
  | .pop => s.queued .pop
  | .cancelQueuedVersions ns st sp => if versioned st then s.queued (.cancelQueuedVersions ns st sp) else none
  | .beginRunning p => if cfg.isTurn p then none else s.queued (.beginRunning p)
  | .turn p a => if cfg.isTurn p && s.queue.working.contains p then turnStep cfg s p a else none
  | .finishTask p => if cfg.isTurn p && !(s.stages p).final then none else s.queued (.finishTask p)
  | .load rowGone pointGone => some (loadStep s rowGone pointGone)
  | .lock docId => if s.locked docId then none else some { s with others := docId :: s.others }
  | .unlock docId => some { s with others := s.others.erase docId }
  | .documents docs =>
    if docs.filter isSession = s.docs.filter isSession ∧ Keyed Doc.docId docs then some { s with docs := docs } else none
  | .addBlock b =>
    if s.drew b.blockId || s.docs.any (fun d => d.docId == b.docId && isSession d) then none
    else (insertRow CortrixBlock.blockId b s.blocks).map fun blocks => { s with blocks := blocks }
  | .addPoint blockId => if s.drew blockId then none else some { s with points := blockId :: s.points }
  | .deleteBlock blockId =>
    if s.drew blockId then none else some { s with blocks := deleteWhere (fun b => b.blockId == blockId) s.blocks }
  | .deletePoint blockId => if s.drew blockId then none else some { s with points := s.points.filter (· != blockId) }

/-! ## What a turn's step does -/

variable {cfg : Config} {s s' t : State} {p q : Nat} {blockId : UInt64}

inductive Turned (cfg : Config) (s : State) (p : Nat) : TurnAct → State → Prop
  | dropped {acquired written : Bool} : s.stages p = .popped →
      (s.queue.tasks p).cancelled = true ∨ acquired = false ∨ (∃ d ∈ s.docs, d.docId = cfg.docId p ∧ d.status = .deleted) →
      Turned cfg s p (.start acquired written) (s.goTo p .ended)
  | started {written : Bool} : s.stages p = .popped →
      Turned cfg s p (.start true written) ({ s with
        docs := if written then (updateStatusLocked (cfg.docId p) .processing "" s.docs).1 else s.docs }.goTo p .processing)
  | notEmbedded {msg : String} : s.stages p = .processing →
      Turned cfg s p (.embedFails msg) (s.goTo p (.failed ("embedding failed: " ++ msg)))
  | refused {blockId : UInt64} {msg : String} : s.stages p = .processing → unused s blockId = true →
      s.locked (cfg.docId p) = true →
      Turned cfg s p (.reserve blockId) ({ s with drawn := (blockId, p) :: s.drawn }.goTo p (.failed msg))
  | reserved {blockId : UInt64} : s.stages p = .processing → unused s blockId = true → s.locked (cfg.docId p) = false →
      Turned cfg s p (.reserve blockId) ({ s with
        drawn := (blockId, p) :: s.drawn, active := cfg.docId p :: s.active }.goTo p (.reserved blockId))
  | appended {blockId : UInt64} : s.stages p = .reserved blockId →
      Turned cfg s p (.append none) ({ s with pending := ⟨blockId, false⟩ :: s.pending }.goTo p (.begun blockId))
  | notAppended {blockId : UInt64} {e msg : String} : s.stages p = .reserved blockId →
      Turned cfg s p (.append (some e)) ({ s with active := s.active.erase (cfg.docId p) }.goTo p (.failed msg))
  | pointed {blockId : UInt64} : s.stages p = .begun blockId →
      Turned cfg s p (.addPoints none) ({ s with points := blockId :: s.points }.goTo p (.pointed blockId))
  | notPointed {blockId : UInt64} {e msg : String} : s.stages p = .begun blockId →
      Turned cfg s p (.addPoints (some e)) (s.goTo p (.failing blockId msg))
  | inserted {blockId : UInt64} : s.stages p = .pointed blockId → (∀ b ∈ s.blocks, b.blockId ≠ blockId) →
      Turned cfg s p (.insert true) ({ s with blocks := s.blocks ++ [cfg.block p blockId] }.goTo p (.inserted blockId))
  | notInserted {blockId : UInt64} {ok : Bool} {msg : String} : s.stages p = .pointed blockId →
      ok = false ∨ (∃ b ∈ s.blocks, b.blockId = blockId) →
      Turned cfg s p (.insert ok) (s.goTo p (.failing blockId msg))
  | recorded {blockId : UInt64} : s.stages p = .inserted blockId →
      Turned cfg s p (.commit none) ({ s with
        recorded := blockId :: s.recorded
        pending := s.pending.filter fun x => x.blockId != blockId }.goTo p (.recorded blockId))
  | notRecorded {blockId : UInt64} {e msg : String} : s.stages p = .inserted blockId →
      Turned cfg s p (.commit (some e)) ({ s with active := s.active.erase (cfg.docId p) }.goTo p (.failed msg))
  | released {blockId : UInt64} : s.stages p = .recorded blockId →
      Turned cfg s p .release ({ s with active := s.active.erase (cfg.docId p) }.goTo p (.committed blockId))
  | notRolledBack {blockId : UInt64} {msg : String} {rowGone pointGone : Bool} : s.stages p = .failing blockId msg →
      Turned cfg s p (.rollback false rowGone pointGone) (s.goTo p (.failed msg))
  | rolledBack {blockId : UInt64} {msg : String} {rowGone pointGone : Bool} : s.stages p = .failing blockId msg →
      Turned cfg s p (.rollback true rowGone pointGone) ({ s with
        active := s.active.erase (cfg.docId p)
        pending := updateWhere (fun x => x.blockId == blockId) (fun x => { x with rolledBack := true }) s.pending
        blocks := if rowGone then deleteWhere (fun b => b.blockId == blockId) s.blocks else s.blocks
        points := if pointGone then s.points.filter (· != blockId) else s.points }.goTo p (.failed msg))
  | published {blockId : UInt64} {ok marker : Bool} {nowMs : Int} : s.stages p = .committed blockId →
      Turned cfg s p (.publish ok marker nowMs) ({ s with
        docs := if ok then docPublishVersion marker (cfg.docId p) nowMs s.docs else s.docs }.goTo p (.done blockId))
  | failed {msg : String} {written : Bool} : s.stages p = .failed msg →
      Turned cfg s p (.markError written) ({ s with
        docs := if written then (updateStatusLocked (cfg.docId p) .error msg s.docs).1 else s.docs }.goTo p .ended)

theorem turnStep_cases {a : TurnAct} (h : turnStep cfg s p a = some s') : Turned cfg s p a s' := by
  unfold turnStep at h
  dsimp only at h
  split at h
  · rename_i acquired written hst
    split at h
    · rename_i hno
      cases h
      rcases (Bool.or_eq_true _ _).mp hno with hcancel | hacq
      · exact .dropped hst (.inl hcancel)
      · exact .dropped hst (.inr (.inl (by simpa using hacq)))
    · rename_i hgo
      have hacq : acquired = true := by
        cases acquired
        · simp at hgo
        · rfl
      subst hacq
      split at h
      · rename_i hw
        cases h
        have : written = false := by simpa using hw
        subst this
        exact .started hst
      · rename_i hw
        have : written = true := by simpa using hw
        subst this
        split at h
        · rename_i hdel
          cases h
          obtain ⟨d, hd, hdead⟩ := List.any_eq_true.mp hdel.2
          exact .dropped hst (.inr (.inr ⟨d, hd, by simpa [live] using hdead⟩))
        · cases h
          exact .started hst
  · rename_i hst
    cases h
    exact .notEmbedded hst
  · rename_i hst
    split at h
    · cases h
    · rename_i hun
      have hun := by simpa using hun
      split at h
      · rename_i hlock
        cases h
        exact .refused hst hun hlock
      · rename_i hlock
        cases h
        exact .reserved hst hun (by simpa using hlock)
  · rename_i hst
    cases h
    exact .appended hst
  · rename_i hst
    cases h
    exact .notAppended hst
  · rename_i hst
    cases h
    exact .pointed hst
  · rename_i hst
    cases h
    exact .notPointed hst
  · rename_i ok hst
    split at h
    · rename_i blocks hins
      cases h
      cases ok
      · cases hins
      · obtain ⟨hnew, rfl⟩ := insertRow_eq_some.mp hins
        exact .inserted hst hnew
    · rename_i hins
      cases h
      cases ok
      · exact .notInserted hst (.inl rfl)
      · exact .notInserted hst (.inr (insertRow_eq_none.mp hins))
  · rename_i hst
    cases h
    exact .recorded hst
  · rename_i hst
    cases h
    exact .notRecorded hst
  · rename_i hst
    cases h
    exact .released hst
  · rename_i appended rowGone pointGone hst
    cases appended
    · cases h
      exact .notRolledBack hst
    · cases h
      exact .rolledBack hst
  · rename_i hst
    cases h
    exact .published hst
  · rename_i hst
    cases h
    exact .failed hst
  · cases h

/-! ## What the stores hold of a turn -/

/-- The block of a turn that has gone on to `BeginWrite` and was not refused. -/
def Stage.block : Stage → Option UInt64
  | .reserved b | .begun b | .pointed b | .inserted b | .recorded b | .committed b | .done b => some b
  | .failing b _ => some b
  | .popped | .processing | .failed _ | .ended => none

/-- The block whose point is added. -/
def Stage.point : Stage → Option UInt64
  | .pointed b | .inserted b | .recorded b | .committed b | .done b => some b
  | _ => none

/-- The block whose row is inserted. -/
def Stage.row : Stage → Option UInt64
  | .inserted b | .recorded b | .committed b | .done b => some b
  | _ => none

/-- The block whose transaction has its COMMITTED record. -/
def Stage.logged : Stage → Option UInt64
  | .recorded b | .committed b | .done b => some b
  | _ => none

theorem Stage.block_of_point {stage : Stage} (h : stage.point = some blockId) : stage.block = some blockId := by
  cases stage <;> first | exact h | cases h

theorem Stage.block_of_row {stage : Stage} (h : stage.row = some blockId) : stage.block = some blockId := by
  cases stage <;> first | exact h | cases h

/-- The blocks, and the points, under the ids drawn for a turn. -/
def ownRows (drawn : List (UInt64 × Nat)) (p : Nat) (blocks : List CortrixBlock) : List CortrixBlock :=
  blocks.filter fun b => drawn.contains (b.blockId, p)

def ownPoints (drawn : List (UInt64 × Nat)) (p : Nat) (points : List UInt64) : List UInt64 :=
  points.filter fun id => drawn.contains (id, p)

/-- The stores have of a turn what its stage says, once each. -/
structure Books (cfg : Config) (s : State) (p : Nat) : Prop where
  rows : ownRows s.drawn p s.blocks = ((s.stages p).row.map (cfg.block p)).toList
  points : ownPoints s.drawn p s.points = (s.stages p).point.toList
  logged : ∀ id, (s.stages p).logged = some id → id ∈ s.recorded
  own : ∀ id, (s.stages p).block = some id → (id, p) ∈ s.drawn

/-- No id is drawn for two turns. -/
def Distinct (drawn : List (UInt64 × Nat)) : Prop := ∀ id p q, (id, p) ∈ drawn → (id, q) ∈ drawn → p = q

theorem unused_iff : unused s blockId = true ↔
    (∀ p, (blockId, p) ∉ s.drawn) ∧ blockId ∉ s.points ∧ ∀ b ∈ s.blocks, b.blockId ≠ blockId := by
  unfold unused
  simp only [Bool.and_eq_true, Bool.not_eq_true', List.any_eq_false, List.contains_eq_mem, decide_eq_false_iff_not,
    beq_iff_eq, Prod.forall, and_assoc]
  constructor
  · rintro ⟨h, h'⟩
    exact ⟨fun p hp => h blockId p hp rfl, h'⟩
  · rintro ⟨h, h'⟩
    exact ⟨fun id p hp hid => h p (hid ▸ hp), h'⟩

variable {drawn : List (UInt64 × Nat)} {docs : List Doc}

theorem ownRows_draw {blocks : List CortrixBlock} (h : q = p → ∀ b ∈ blocks, b.blockId ≠ blockId) :
    ownRows ((blockId, p) :: drawn) q blocks = ownRows drawn q blocks := by
  refine List.filter_congr fun b hb => ?_
  rw [List.contains_cons]
  have hne : ((b.blockId, q) == (blockId, p)) = false := by
    rw [beq_eq_false_iff_ne]
    intro he
    obtain ⟨hid, hq⟩ := Prod.mk.inj he
    exact h hq b hb hid
  rw [hne, Bool.false_or]

theorem ownPoints_draw {points : List UInt64} (h : q = p → blockId ∉ points) :
    ownPoints ((blockId, p) :: drawn) q points = ownPoints drawn q points := by
  refine List.filter_congr fun id hid => ?_
  rw [List.contains_cons]
  have hne : ((id, q) == (blockId, p)) = false := by
    rw [beq_eq_false_iff_ne]
    intro he
    obtain ⟨rfl, hq⟩ := Prod.mk.inj he
    exact h hq hid
  rw [hne, Bool.false_or]

theorem ownRows_append {b : CortrixBlock} (h : (b.blockId, q) ∉ drawn) (blocks : List CortrixBlock) :
    ownRows drawn q (blocks ++ [b]) = ownRows drawn q blocks := by
  unfold ownRows
  rw [List.filter_append, List.filter_cons_of_neg (by simpa using h), List.filter_nil, List.append_nil]

theorem ownPoints_cons (h : (blockId, q) ∉ drawn) (points : List UInt64) :
    ownPoints drawn q (blockId :: points) = ownPoints drawn q points := by
  unfold ownPoints
  rw [List.filter_cons_of_neg (by simpa using h)]

theorem ownRows_deleteWhere (h : (blockId, q) ∉ drawn) (blocks : List CortrixBlock) :
    ownRows drawn q (deleteWhere (fun b => b.blockId == blockId) blocks) = ownRows drawn q blocks := by
  unfold ownRows deleteWhere
  rw [List.filter_filter]
  refine List.filter_congr fun b _ => ?_
  by_cases hb : b.blockId = blockId
  · have : drawn.contains (b.blockId, q) = false := by simpa [hb] using h
    rw [this, Bool.false_and]
  · simp [hb]

theorem ownPoints_filter (h : (blockId, q) ∉ drawn) (points : List UInt64) :
    ownPoints drawn q (points.filter (· != blockId)) = ownPoints drawn q points := by
  unfold ownPoints
  rw [List.filter_filter]
  refine List.filter_congr fun id _ => ?_
  by_cases hid : id = blockId
  · have : drawn.contains (id, q) = false := by simpa [hid] using h
    rw [this, Bool.false_and]
  · simp [hid]

theorem State.drew_iff : s.drew blockId = true ↔ ∃ p, (blockId, p) ∈ s.drawn := by
  unfold State.drew
  simp [List.any_eq_true]

theorem not_drawn (h : s.drew blockId = false) (p : Nat) : (blockId, p) ∉ s.drawn := by
  intro hp
  rw [State.drew_iff.mpr ⟨p, hp⟩] at h
  cases h

theorem goTo_self {stage : Stage} : (s.goTo p stage).stages p = stage := Function.update_self ..

theorem Books.frame (h : Books cfg s q) (hst : s'.stages q = s.stages q)
    (hrows : ownRows s'.drawn q s'.blocks = ownRows s.drawn q s.blocks)
    (hpoints : ownPoints s'.drawn q s'.points = ownPoints s.drawn q s.points)
    (hrec : ∀ id ∈ s.recorded, id ∈ s'.recorded) (hdrawn : ∀ x ∈ s.drawn, x ∈ s'.drawn) : Books cfg s' q := by
  refine ⟨?_, ?_, fun id hid => hrec id ?_, fun id hid => hdrawn _ ?_⟩
  · rw [hrows, hst]
    exact h.rows
  · rw [hpoints, hst]
    exact h.points
  · exact h.logged id (hst ▸ hid)
  · exact h.own id (hst ▸ hid)

theorem Books.goOn (h : Books cfg s p) {old new : Stage} (hat : s.stages p = old) (hst : s'.stages p = new)
    (hsame : s'.drawn = s.drawn ∧ s'.blocks = s.blocks ∧ s'.points = s.points ∧ s'.recorded = s.recorded)
    (hrow : new.row = old.row) (hpoint : new.point = old.point) (hlogged : new.logged = none ∨ new.logged = old.logged)
    (hown : new.block = none ∨ new.block = old.block) : Books cfg s' p := by
  obtain ⟨hdrawn, hblocks, hpoints, hrec⟩ := hsame
  subst hat hst
  refine ⟨?_, ?_, fun id hid => ?_, fun id hid => ?_⟩
  · rw [hdrawn, hblocks, hrow]
    exact h.rows
  · rw [hdrawn, hpoints, hpoint]
    exact h.points
  · rcases hlogged with hnone | hsome
    · rw [hnone] at hid
      cases hid
    · rw [hrec]
      exact h.logged id (hsome ▸ hid)
  · rcases hown with hnone | hsome
    · rw [hnone] at hid
      cases hid
    · rw [hdrawn]
      exact h.own id (hsome ▸ hid)

/-! ## The step of a turn, seen by the turns -/

namespace Turned

variable {a : TurnAct}

theorem queue_eq (h : Turned cfg s p a s') : s'.queue = s.queue := by
  cases h <;> rfl

theorem stages_of_ne (h : Turned cfg s p a s') (hne : q ≠ p) : s'.stages q = s.stages q := by
  cases h <;> exact Function.update_of_ne hne ..

theorem not_final (h : Turned cfg s p a s') : (s.stages p).final = false := by
  cases h with
  | dropped hat _ | refused hat _ _ | reserved hat _ _ | inserted hat _ | notInserted hat _ =>
    rw [hat]
    rfl
  | started hat | notEmbedded hat | appended hat | notAppended hat | pointed hat | notPointed hat | recorded hat
  | notRecorded hat | released hat | notRolledBack hat | rolledBack hat | published hat | failed hat =>
    rw [hat]
    rfl

theorem drawn_subset (h : Turned cfg s p a s') : ∀ x ∈ s.drawn, x ∈ s'.drawn := by
  cases h <;> intro x hx
  case refused => exact List.mem_cons_of_mem _ hx
  case reserved => exact List.mem_cons_of_mem _ hx
  all_goals exact hx

theorem distinct_cons (hd : Distinct s.drawn) (hun : unused s blockId = true) : Distinct ((blockId, p) :: s.drawn) := by
  have hnew := (unused_iff.mp hun).1
  intro id x y hx hy
  rcases List.mem_cons.mp hx with hx | hx <;> rcases List.mem_cons.mp hy with hy | hy
  · rw [(Prod.mk.inj hx).2, (Prod.mk.inj hy).2]
  · exact absurd ((Prod.mk.inj hx).1 ▸ hy) (hnew y)
  · exact absurd ((Prod.mk.inj hy).1 ▸ hx) (hnew x)
  · exact hd id x y hx hy

theorem distinct (h : Turned cfg s p a s') (hd : Distinct s.drawn) : Distinct s'.drawn := by
  cases h
  case refused _ _ hun _ => exact distinct_cons hd hun
  case reserved _ hun _ => exact distinct_cons hd hun
  all_goals exact hd

theorem books_other (h : Turned cfg s p a s') (hne : q ≠ p) (hd : Distinct s.drawn) (hp : Books cfg s p)
    (hq : Books cfg s q) : Books cfg s' q := by
  have hst := h.stages_of_ne hne
  have hdrawn := h.drawn_subset
  have hforeign : ∀ id, (s.stages p).block = some id → (id, q) ∉ s.drawn := by
    intro id hid hdq
    exact hne (hd id q p hdq (hp.own id hid))
  cases h with
  | refused _ hun _ | reserved _ hun _ =>
    exact hq.frame hst (ownRows_draw fun he => absurd he hne) (ownPoints_draw fun he => absurd he hne) (fun _ h => h) hdrawn
  | pointed hat => exact hq.frame hst rfl (ownPoints_cons (hforeign _ (by rw [hat]; rfl)) _) (fun _ h => h) hdrawn
  | inserted hat _ => exact hq.frame hst (ownRows_append (hforeign _ (by rw [hat]; rfl)) _) rfl (fun _ h => h) hdrawn
  | recorded _ => exact hq.frame hst rfl rfl (fun _ h => List.mem_cons_of_mem _ h) hdrawn
  | rolledBack hat =>
    have hown := hforeign _ (by rw [hat]; rfl)
    refine hq.frame hst ?_ ?_ (fun _ h => h) hdrawn
    · show ownRows s.drawn q (if _ then _ else _) = _
      split
      · exact ownRows_deleteWhere hown _
      · rfl
    · show ownPoints s.drawn q (if _ then _ else _) = _
      split
      · exact ownPoints_filter hown _
      · rfl
  | _ => exact hq.frame hst rfl rfl (fun _ h => h) hdrawn

end Turned

/-! ## The document of a session -/

theorem mem_updateStatusLocked {docId msg : String} {status : DocStatus} {d : Doc}
    (h : d ∈ (updateStatusLocked docId status msg docs).1) :
    (∃ d₀ ∈ docs, d₀.docId = docId ∧ live d₀ = true ∧ d = { d₀ with status := status, errorMessage := msg }) ∨
      d ∈ docs ∧ (d.docId = docId → live d = false) := by
  obtain ⟨d₀, hd₀, rfl⟩ := mem_updateWhere.mp h
  by_cases hg : statusGuard docId d₀ = true
  · rw [if_pos hg]
    obtain ⟨hid, hlive⟩ := (Bool.and_eq_true _ _).mp hg
    exact .inl ⟨d₀, hd₀, beq_iff_eq.mp hid, hlive, rfl⟩
  · rw [if_neg hg]
    refine .inr ⟨hd₀, fun hid => ?_⟩
    simpa [statusGuard, hid] using hg

theorem docPublishVersion_session (hkey : Keyed Doc.docId docs) {d : Doc} (hd : d ∈ docs)
    (hsession : isSession d = true) (hlive : live d = true) (marker : Bool) (nowMs : Int) :
    docPublishVersion marker d.docId nowMs docs = (updateStatusLocked d.docId .ready "" docs).1 := by
  have hrc : (updateStatusLocked d.docId .ready "" docs).2 = 0 := by
    have hpos : 0 < changes (statusGuard d.docId) docs := changes_pos.mpr ⟨d, hd, by simp [statusGuard, hlive]⟩
    show rowCode (statusGuard d.docId) docs = 0
    rw [rowCode, if_neg (by omega)]
  unfold docPublishVersion
  dsimp only
  rw [if_pos hrc]
  refine updateWhere_of_none fun r _ => ?_
  rw [retireGuard, List.any_eq_false]
  intro k hk hguard
  simp only [Bool.and_eq_true, beq_iff_eq, and_assoc] at hguard
  obtain ⟨hid, hver, -⟩ := hguard
  have htype : k.sourceType = "memory_session" := by
    rcases mem_updateStatusLocked hk with ⟨d₀, hd₀, hid₀, -, rfl⟩ | ⟨hk, -⟩
    · rw [hkey.eq_of_key hd₀ hd hid₀]
      simpa [isSession] using hsession
    · rw [hkey.eq_of_key hk hd hid]
      simpa [isSession] using hsession
  rw [htype] at hver
  revert hver
  decide

theorem exists_session {docId : String} {status : DocStatus} {msg : String} {id : String}
    (h : ∃ d ∈ docs, d.docId = id ∧ isSession d = true) :
    ∃ d ∈ (updateStatusLocked docId status msg docs).1, d.docId = id ∧ isSession d = true := by
  obtain ⟨d, hd, hid, hsession⟩ := h
  refine ⟨_, mem_updateWhere_of_mem hd, ?_⟩
  split
  · exact ⟨hid, hsession⟩
  · exact ⟨hid, hsession⟩

theorem mem_session_iff {docs' : List Doc} {d : Doc} (h : docs'.filter isSession = docs.filter isSession)
    (hd : isSession d = true) : d ∈ docs' ↔ d ∈ docs := by
  have : d ∈ docs'.filter isSession ↔ d ∈ docs.filter isSession := by rw [h]
  simpa [List.mem_filter, hd] using this

/-! ## The steps -/

theorem queued_eq_some {a : TaskQueue.Act} (h : s.queued a = some s') :
    ∃ queue', TaskQueue.step s.queue a = some queue' ∧ s' = { s with queue := queue' } := by
  obtain ⟨queue', hq, rfl⟩ := Option.map_eq_some_iff.mp h
  exact ⟨queue', hq, rfl⟩

theorem stages_step {a : Act} (h : step cfg s a = some s') :
    (∃ p b, a = .turn p b ∧ cfg.isTurn p = true ∧ p ∈ s.queue.working ∧ Turned cfg s p b s') ∨ s'.stages = s.stages := by
  have hqueued : ∀ {b : TaskQueue.Act}, s.queued b = some s' → s'.stages = s.stages := by
    intro b hb
    obtain ⟨_, -, rfl⟩ := queued_eq_some hb
    rfl
  cases a with
  | turn p b =>
    simp only [step] at h
    split at h
    · rename_i hgo
      obtain ⟨hturn, hwork⟩ := (Bool.and_eq_true _ _).mp hgo
      exact .inl ⟨p, b, rfl, hturn, by simpa using hwork, turnStep_cases h⟩
    · cases h
  | pop => exact .inr (hqueued h)
  | load _ _ | unlock _ =>
    cases h
    exact .inr rfl
  | addBlock b =>
    simp only [step] at h
    split at h
    · cases h
    · obtain ⟨_, -, rfl⟩ := Option.map_eq_some_iff.mp h
      exact .inr rfl
  | _ =>
    simp only [step] at h
    split at h
    all_goals first
      | cases h; done
      | exact .inr (hqueued h)
      | exact .inr (Option.some.inj h ▸ rfl)

/-! ## What other work does -/

/-- The steps that are none of a turn or of the queue. -/
def Act.foreign : Act → Bool
  | .openSession _ _ _ | .lock _ | .unlock _ | .documents _ | .addBlock _ | .addPoint _ | .deleteBlock _
  | .deletePoint _ => true
  | _ => false

/-- What the step changes in the stores is under no id of a turn, and no session's row but a new one. -/
structure Foreign (s s' : State) : Prop where
  queue : s'.queue = s.queue
  stages : s'.stages = s.stages
  drawn : s'.drawn = s.drawn
  recorded : s'.recorded = s.recorded
  pending : s'.pending = s.pending
  rows : ∀ p, ownRows s.drawn p s'.blocks = ownRows s.drawn p s.blocks
  points : ∀ p, ownPoints s.drawn p s'.points = ownPoints s.drawn p s.points
  rowIds : Keyed CortrixBlock.blockId s.blocks → Keyed CortrixBlock.blockId s'.blocks
  ids : Keyed Doc.docId s.docs → Keyed Doc.docId s'.docs
  old : ∀ d ∈ s.docs, isSession d = true → d ∈ s'.docs
  new : ∀ d ∈ s'.docs, isSession d = true → d ∈ s.docs ∨ d.status = .ready

namespace Foreign

theorem of_docs {docs : List Doc} (hids : Keyed Doc.docId s.docs → Keyed Doc.docId docs)
    (hold : ∀ d ∈ s.docs, isSession d = true → d ∈ docs)
    (hnew : ∀ d ∈ docs, isSession d = true → d ∈ s.docs ∨ d.status = .ready) : Foreign s { s with docs := docs } :=
  ⟨rfl, rfl, rfl, rfl, rfl, fun _ => rfl, fun _ => rfl, id, hids, hold, hnew⟩

theorem of_blocks {blocks : List CortrixBlock} (hrows : ∀ p, ownRows s.drawn p blocks = ownRows s.drawn p s.blocks)
    (hids : Keyed CortrixBlock.blockId s.blocks → Keyed CortrixBlock.blockId blocks) :
    Foreign s { s with blocks := blocks } :=
  ⟨rfl, rfl, rfl, rfl, rfl, hrows, fun _ => rfl, hids, id, fun _ hd _ => hd, fun _ hd _ => .inl hd⟩

theorem of_points {points : List UInt64}
    (hpoints : ∀ p, ownPoints s.drawn p points = ownPoints s.drawn p s.points) : Foreign s { s with points := points } :=
  ⟨rfl, rfl, rfl, rfl, rfl, fun _ => rfl, hpoints, id, id, fun _ hd _ => hd, fun _ hd _ => .inl hd⟩

theorem of_others (others : List String) : Foreign s { s with others := others } :=
  ⟨rfl, rfl, rfl, rfl, rfl, fun _ => rfl, fun _ => rfl, id, id, fun _ hd _ => hd, fun _ hd _ => .inl hd⟩

theorem mem_blocks_iff (h : Foreign s s') {b : CortrixBlock} (hb : s.drew b.blockId = true) :
    b ∈ s'.blocks ↔ b ∈ s.blocks := by
  obtain ⟨p, hp⟩ := State.drew_iff.mp hb
  have hmem {blocks : List CortrixBlock} : b ∈ ownRows s.drawn p blocks ↔ b ∈ blocks := by
    simp [ownRows, hp]
  rw [← hmem, h.rows p, hmem]

theorem mem_points_iff (h : Foreign s s') {id : UInt64} (hid : s.drew id = true) : id ∈ s'.points ↔ id ∈ s.points := by
  obtain ⟨p, hp⟩ := State.drew_iff.mp hid
  have hmem {points : List UInt64} : id ∈ ownPoints s.drawn p points ↔ id ∈ points := by
    simp [ownPoints, hp]
  rw [← hmem, h.points p, hmem]

end Foreign

theorem foreign_of_step {a : Act} (ha : a.foreign = true) (h : step cfg s a = some s') : Foreign s s' := by
  cases a with
  | openSession docId sessionId createdAt =>
    simp only [step] at h
    split at h
    · cases h
    · cases h
      unfold docCreate
      split
      · rename_i docs hins
        obtain ⟨hnew, rfl⟩ := insertRow_eq_some.mp hins
        refine .of_docs (fun hids => hids.insertRow hins) (fun d hd _ => List.mem_append_left _ hd) fun d hd _ => ?_
        rcases List.mem_append.mp hd with hd | hd
        · exact .inl hd
        · rw [List.mem_singleton.mp hd]
          exact .inr rfl
      · exact .of_others s.others
  | lock docId =>
    simp only [step] at h
    split at h
    · cases h
    · cases h
      exact .of_others _
  | unlock docId =>
    cases h
    exact .of_others _
  | documents docs =>
    simp only [step] at h
    split at h
    · rename_i hdocs
      obtain ⟨hsame, hids⟩ := hdocs
      cases h
      exact .of_docs (fun _ => hids) (fun d hd hs => (mem_session_iff hsame hs).mpr hd)
        fun d hd hs => .inl ((mem_session_iff hsame hs).mp hd)
    · cases h
  | addBlock b =>
    simp only [step] at h
    split at h
    · cases h
    · rename_i hno
      obtain ⟨blocks, hins, rfl⟩ := Option.map_eq_some_iff.mp h
      obtain ⟨-, rfl⟩ := insertRow_eq_some.mp hins
      have hdrew : s.drew b.blockId = false := by
        simp only [Bool.or_eq_true, not_or, Bool.not_eq_true] at hno
        exact hno.1
      exact .of_blocks (fun p => ownRows_append (not_drawn hdrew p) _) fun hids => hids.insertRow hins
  | addPoint blockId =>
    simp only [step] at h
    split at h
    · cases h
    · rename_i hno
      cases h
      exact .of_points fun p => ownPoints_cons (not_drawn (by simpa using hno) p) _
  | deleteBlock blockId =>
    simp only [step] at h
    split at h
    · cases h
    · rename_i hno
      cases h
      exact .of_blocks (fun p => ownRows_deleteWhere (not_drawn (by simpa using hno) p) _) Keyed.deleteWhere
  | deletePoint blockId =>
    simp only [step] at h
    split at h
    · cases h
    · rename_i hno
      cases h
      exact .of_points fun p => ownPoints_filter (not_drawn (by simpa using hno) p) _
  | submit _ _ | pop | cancelQueuedVersions _ _ _ | beginRunning _ | turn _ _ | finishTask _ | load _ _ => cases ha

end SessionTurns

end Cortrix.Memory
