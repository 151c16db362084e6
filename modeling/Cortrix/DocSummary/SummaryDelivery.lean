import Cortrix.Async.TaskScheduler
import Cortrix.Query.DocDiscovery

/-!
# The deliveries of doc-summary tasks

The tasks and their scheduler, the calls of `F41AsyncWorker::ProcessTask` step by step, and the rows, points and
pending transactions of one namespace. A crash leaves the stores, recovers the pending transactions and queues the
tasks again.

* `summaries`, `OneSummary` : the stored summaries of a document with a live point, at most one;
* `one_summary_iff` : along a run each document has one summary and counts once exactly when every insert finds none.
-/

namespace Cortrix.DocSummary
open Lib Async Async.Scheduler Query Query.DocDiscovery Query.PostFilter

/-! ## ProcessTask -/

def kTaskDocSummary : Int := 3

structure DocSummaryConfig where
  promptVersion : String
  llmModel : String

structure DocSummaryStructured where
  summaryText : String
  keywords : List String := []
  topics : List String := []
  oneLiner : String := ""

def buildMetadataJson (s : DocSummaryStructured) (cfg : DocSummaryConfig) : Metadata :=
  [("keywords", .arr (s.keywords.map .str)), ("topics", .arr (s.topics.map .str)), ("one_liner", .str s.oneLiner),
    ("prompt_version", .str cfg.promptVersion), ("llm_model", .str cfg.llmModel), ("status", .str "generated")]

def summaryBlock (docId : String) (s : DocSummaryStructured) (cfg : DocSummaryConfig) (blockId : UInt64) :
    CortrixBlock where
  blockId := blockId
  docId := docId
  blockType := kBlockDocSummary
  contentText := cText s.summaryText
  metadata := some (buildMetadataJson s cfg)

/-- What acquiring the namespace, generating and embedding come to. -/
inductive Generated
  | failed (errorCode errorMsg structuredData : String)
  | noContent
  /-- A summary with the id of its block; the embedding may be empty. -/
  | summary (s : DocSummaryStructured) (blockId : UInt64) (vector : Bool)

inductive Stage
  | generating
  /-- The transaction is begun, the point is to be added. -/
  | begun (block : CortrixBlock) (vector : Bool)
  | pointed (block : CortrixBlock)
  | inserted (blockId : UInt64)
  /-- A write failed and `Rollback` is to be called. -/
  | failing (blockId : UInt64) (errorMsg : String)
  | ending (outcome : Outcome)
  | ended

/-- The block that is not inserted yet. -/
def Stage.unstored : Stage → Option CortrixBlock
  | .begun block _ => some block
  | .pointed block => some block
  | .generating => none
  | .inserted _ => none
  | .failing _ _ => none
  | .ending _ => none
  | .ended => none

structure Run where
  workerId : Int
  task : TaskInfo
  stage : Stage

/-- A transaction in `pending.wal` that is not committed. -/
structure Pending where
  docId : String
  blockId : UInt64
  rolledBack : Bool := false

structure State where
  sched : Scheduler.State
  runs : List Run := []
  /-- The documents locked by the transactions of summaries, and by others. -/
  active : List String := []
  others : List String := []
  pending : List Pending := []
  rows : Rows := {}
  points : List UInt64 := []
  docFts : List DocFtsRow := []
  /-- The block ids drawn so far. -/
  drawn : List UInt64 := []

structure Config where
  env : Env
  namespaceId : String
  summary : DocSummaryConfig

inductive Act
  /-- Submissions, other handlers, cancels and sweeps. -/
  | sched (a : Scheduler.Act)
  | start (workerId : Int)
  /-- Up to `BeginWrite`, whose record may not be appended. -/
  | generate (workerId : Int) (g : Generated) (appended : Bool)
  /-- Whether it succeeds, and if not, whether the index keeps the point in memory. -/
  | addPoints (workerId : Int) (ok kept : Bool)
  | insert (workerId : Int) (ok : Bool)
  | commit (workerId : Int) (appended : Bool)
  /-- Whether the record is appended, and whether the delete and the mark take effect. -/
  | rollback (workerId : Int) (appended rowGone pointGone : Bool)
  | finalize (workerId now : Int)
  | leave (workerId : Int) (outcome : HandlerOutcome)
  /-- The points that are lost, what recovery cleans up, and the clocks of the restart. -/
  | crash (lost rowGone pointGone : UInt64 → Bool) (nowUnix zombieHours now : Int)
  | compact
  | lock (docId : String)
  | unlock (docId : String)
  /-- Other blocks, and points that are none of a summary. -/
  | addBlock (b : CortrixBlock)
  | addPoint (blockId : UInt64)
  | deleteBlock (blockId : UInt64)
  | deletePoint (blockId : UInt64)
  | documents (docs : List CortrixDoc)
  | upsertDocFts (row : DocFtsRow)
  | deleteDocFts (docId : String)

/-! ## Steps -/

def runOf (s : State) (workerId : Int) : Option Run := s.runs.find? fun r => r.workerId == workerId

def State.goTo (s : State) (workerId : Int) (stage : Stage) : State :=
  { s with runs := updateWhere (fun r => r.workerId == workerId) (fun r => { r with stage := stage }) s.runs }

/-- The worker holds a doc-summary task of this namespace. -/
def summarizes (cfg : Config) (s : State) (workerId : Int) : Bool :=
  (heldBy s.sched workerId).any fun h => h.task.taskType == kTaskDocSummary && h.task.namespaceId == cfg.namespaceId

/-- A step of the scheduler that is none of a summary's worker. -/
def foreign (cfg : Config) (s : State) : Scheduler.Act → Bool
  | .finalize workerId _ _ => !summarizes cfg s workerId
  | .finished workerId _ => !summarizes cfg s workerId
  | _ => true

def writeFailed (msg : String) (docId : String) : Outcome :=
  .fail "CX_ERR_F41_WRITE_FAILED" msg ("\x7b\"doc_id\":\"" ++ docId ++ "\"\x7d")

def unused (s : State) (blockId : UInt64) : Bool :=
  !s.drawn.contains blockId && !s.points.contains blockId && !s.rows.blocks.any fun b => b.blockId == blockId

def generateStep (cfg : Config) (s : State) (run : Run) (g : Generated) (appended : Bool) : Option State :=
  match g with
  | .failed code msg data => some (s.goTo run.workerId (.ending (.fail code msg data)))
  | .noContent => some (s.goTo run.workerId (.ending (.complete run.task.docId)))
  | .summary summary blockId vector =>
    if !unused s blockId then none
    else
      let docId := run.task.docId
      let s := { s with drawn := blockId :: s.drawn }
      if s.active.contains docId || s.others.contains docId then
        some (s.goTo run.workerId (.ending (writeFailed ("doc_id already has a live transaction: " ++ docId) docId)))
      else if !appended then
        some (s.goTo run.workerId (.ending (writeFailed "append PENDING failed" docId)))
      else
        some ({ s with active := docId :: s.active, pending := ⟨docId, blockId, false⟩ :: s.pending }.goTo run.workerId
          (.begun (summaryBlock docId summary cfg.summary blockId) vector))

def addPointsStep (s : State) (run : Run) (ok kept : Bool) : Option State :=
  match run.stage with
  | .begun block vector =>
    if !vector then some (s.goTo run.workerId (.pointed block))
    else
      let added := { s with points := block.blockId :: s.points }
      if ok then some (added.goTo run.workerId (.pointed block))
      else some ((if kept then added else s).goTo run.workerId (.failing block.blockId "AddPoints failed"))
  | _ => none

def insertStep (s : State) (run : Run) (ok : Bool) : Option State :=
  match run.stage with
  | .pointed block =>
    match (if ok then insertRow CortrixBlock.blockId block s.rows.blocks else none) with
    | some blocks => some ({ s with rows := { s.rows with blocks := blocks } }.goTo run.workerId (.inserted block.blockId))
    | none => some (s.goTo run.workerId (.failing block.blockId "doc_summary block_insert failed"))
  | _ => none

/-- `Commit` releases the document even when its record is not appended. -/
def commitStep (s : State) (run : Run) (appended : Bool) : Option State :=
  match run.stage with
  | .inserted blockId =>
    let s := { s with active := s.active.filter (· != run.task.docId) }
    if appended then
      some ({ s with pending := s.pending.filter (·.blockId != blockId) }.goTo run.workerId
        (.ending (.complete run.task.docId)))
    else some (s.goTo run.workerId (.ending (writeFailed "append COMMITTED failed after retries" run.task.docId)))
  | _ => none

/-- `Rollback`, with its callback once the record is appended. -/
def rollbackStep (s : State) (run : Run) (appended rowGone pointGone : Bool) : Option State :=
  match run.stage with
  | .failing blockId msg =>
    let s := s.goTo run.workerId (.ending (writeFailed msg run.task.docId))
    if !appended then some s
    else
      some { s with
        active := s.active.filter (· != run.task.docId)
        pending := updateWhere (fun p => p.blockId == blockId) (fun p => { p with rolledBack := true }) s.pending
        rows := if rowGone then { s.rows with blocks := deleteWhere (fun b => b.blockId == blockId) s.rows.blocks } else s.rows
        points := if pointGone then s.points.filter (· != blockId) else s.points }
  | _ => none

/-- The pending transactions that recovery cleans up: rolled back, or not all there. -/
def unfinished (rows : Rows) (points : List UInt64) (pending : List Pending) : List UInt64 :=
  (pending.filter fun p => p.rolledBack || !(rows.blocks.any (·.blockId == p.blockId) && points.contains p.blockId)).map
    (·.blockId)

/-- The process dies; at the restart `Recover` and `RequeueStaleProcessing` run. -/
def crashStep (s : State) (lost rowGone pointGone : UInt64 → Bool) (nowUnix zombieHours now : Int) : State :=
  let points := s.points.filter fun p => !lost p
  let undo := unfinished s.rows points s.pending
  { s with
    sched := Scheduler.State.init (requeueStaleProcessing nowUnix zombieHours now s.sched.tasks).1
    runs := []
    active := []
    others := []
    pending := []
    rows := { s.rows with blocks := deleteWhere (fun b => undo.contains b.blockId && rowGone b.blockId) s.rows.blocks }
    points := points.filter fun p => !(undo.contains p && pointGone p) }

def step (cfg : Config) (s : State) : Act → Option State
  | .sched a => if foreign cfg s a then (Scheduler.step cfg.env s.sched a).map fun sched => { s with sched := sched } else none
  | .start workerId =>
    if summarizes cfg s workerId && (runOf s workerId).isNone then
      (heldBy s.sched workerId).map fun h => { s with runs := ⟨workerId, h.task, .generating⟩ :: s.runs }
    else none
  | .generate workerId g appended =>
    (runOf s workerId).bind fun run =>
      match run.stage with
      | .generating => generateStep cfg s run g appended
      | _ => none
  | .addPoints workerId ok kept => (runOf s workerId).bind fun run => addPointsStep s run ok kept
  | .insert workerId ok => (runOf s workerId).bind fun run => insertStep s run ok
  | .commit workerId appended => (runOf s workerId).bind fun run => commitStep s run appended
  | .rollback workerId appended rowGone pointGone =>
    (runOf s workerId).bind fun run => rollbackStep s run appended rowGone pointGone
  | .finalize workerId now =>
    (runOf s workerId).bind fun run =>
      match run.stage with
      | .ending outcome =>
        (finalizeStep s.sched workerId outcome now).map fun sched => { s with sched := sched }.goTo workerId .ended
      | _ => none
  | .leave workerId outcome =>
    (runOf s workerId).bind fun run =>
      match run.stage, outcome with
      | .ended, .noHandler => none
      -- an exception may leave a call at any stage
      | _, .threw | .ended, _ =>
        (Scheduler.step cfg.env s.sched (.finished workerId outcome)).map fun sched =>
          { s with sched := sched, runs := s.runs.filter fun r => r.workerId != workerId }
      | _, _ => none
  | .crash lost rowGone pointGone nowUnix zombieHours now =>
    some (crashStep s lost rowGone pointGone nowUnix zombieHours now)
  | .compact => some { s with pending := s.pending.filter fun p => !p.rolledBack }
  | .lock docId =>
    if s.active.contains docId || s.others.contains docId then none else some { s with others := docId :: s.others }
  | .unlock docId => some { s with others := s.others.filter (· != docId) }
  | .addBlock b =>
    if b.blockType = kBlockDocSummary ∨ b.blockId ∈ s.drawn then none
    else (insertRow CortrixBlock.blockId b s.rows.blocks).map fun blocks => { s with rows := { s.rows with blocks := blocks } }
  | .addPoint blockId => if blockId ∈ s.drawn then none else some { s with points := blockId :: s.points }
  | .deleteBlock blockId =>
    some { s with rows := { s.rows with blocks := deleteWhere (fun b => b.blockId == blockId) s.rows.blocks } }
  | .deletePoint blockId => some { s with points := s.points.filter (· != blockId) }
  | .documents docs => some { s with rows := { s.rows with docs := docs } }
  | .upsertDocFts row =>
    if row.docId = "" then none
    else some { s with docFts := deleteWhere (fun x => x.docId == row.docId) s.docFts ++ [row] }
  | .deleteDocFts docId => some { s with docFts := deleteWhere (fun x => x.docId == docId) s.docFts }

def init (tasks : Tasks) : State := { sched := Scheduler.State.init tasks }

/-! ## What is promised -/

/-- The stored summaries of a document whose point is live. -/
def summaries (s : State) (docId : String) : List CortrixBlock :=
  s.rows.blocks.filter fun b => b.blockType == kBlockDocSummary && b.docId == docId && s.points.contains b.blockId

def OneSummary (s : State) : Prop := ∀ docId, (summaries s docId).length ≤ 1

/-- Whatever the index and the full-text index return, each path adds at most `1 / k` to the score of a document. -/
def CountsOnce (s : State) : Prop :=
  ∀ lookupOk topK raw bm25 ftsHits cut k out, IndexSearch s.points (topK * 4) raw →
    SearchDocFts5 s.rows s.docFts bm25 topK ftsHits →
      FuseDocDiscovery (recallDocSummaryHnsw s.rows lookupOk topK raw) ftsHits cut k out → ∀ hit ∈ out,
        let summary := pathScore (rrfK k) hit.docId ((recallDocSummaryHnsw s.rows lookupOk topK raw).map (·.docId))
        let text := pathScore (rrfK k) hit.docId (ftsHits.map (·.docId))
        hit.matchScore = summary + text ∧ summary ≤ 1 / (rrfK k : Rat) ∧ text ≤ 1 / (rrfK k : Rat)

/-- A summary is stored only for a document that has none. -/
def Fresh (s : State) : Act → Prop
  | .insert workerId true => ∀ run block, runOf s workerId = some run → run.stage = .pointed block →
      block.blockId ∈ s.points → summaries s block.docId = []
  | _ => True

instance (s : State) : ∀ a, Decidable (Fresh s a)
  | .insert workerId true =>
    match hrun : runOf s workerId with
    | none => .isTrue fun run block h => by rw [hrun] at h; cases h
    | some run =>
      match hstage : run.stage with
      | .pointed block =>
        decidable_of_iff (block.blockId ∈ s.points → summaries s block.docId = []) (by
          constructor
          · intro h run' block' hrun' hstage'
            obtain rfl := Option.some.inj (hrun.symm.trans hrun')
            obtain rfl := Stage.pointed.inj (hstage.symm.trans hstage')
            exact h
          · exact fun h => h run block hrun hstage)
      | .generating | .begun .. | .inserted _ | .failing .. | .ending _ | .ended =>
        .isTrue fun run' block h hstage' => by
          obtain rfl := Option.some.inj (hrun.symm.trans h)
          rw [hstage] at hstage'
          cases hstage'
  | .insert _ false | .sched _ | .start _ | .generate .. | .addPoints .. | .commit .. | .rollback .. | .finalize ..
  | .leave .. | .crash .. | .compact | .lock _ | .unlock _ | .addBlock _ | .addPoint _ | .deleteBlock _ | .deletePoint _
  | .documents _ | .upsertDocFts _ | .deleteDocFts _ => .isTrue trivial

/-! ## What a step moves -/

variable {cfg : Config} {s s' t : State} {run : Run} {workerId : Int} {block : CortrixBlock}

/-- No block of a summary is added, and no point but those of calls in progress. -/
structure Moves (s s' : State) : Prop where
  workers : Keyed Run.workerId s.runs → Keyed Run.workerId s'.runs
  runs : ∀ run ∈ s'.runs, ∀ b, run.stage.unstored = some b →
    ∃ run₀ ∈ s.runs, run₀.workerId = run.workerId ∧ run₀.stage.unstored = some b
  keyed : Keyed CortrixBlock.blockId s.rows.blocks → Keyed CortrixBlock.blockId s'.rows.blocks
  blocks : ∀ x ∈ s'.rows.blocks, x ∈ s.rows.blocks ∨ x.blockType ≠ kBlockDocSummary ∧ x.blockId ∉ s.drawn
  points : ∀ p ∈ s'.points, p ∈ s.points ∨ p ∉ s.drawn ∨
    ∃ run ∈ s.runs, ∃ b, run.stage.unstored = some b ∧ b.blockId = p
  drawn : ∀ p ∈ s.drawn, p ∈ s'.drawn
  fts : Keyed DocFtsRow.docId s.docFts → Keyed DocFtsRow.docId s'.docFts

theorem Moves.trans (h : Moves s t) (h' : Moves t s') : Moves s s' where
  workers := h'.workers ∘ h.workers
  runs run hrun b hb := by
    obtain ⟨run₁, hrun₁, hw₁, hb₁⟩ := h'.runs run hrun b hb
    obtain ⟨run₀, hrun₀, hw₀, hb₀⟩ := h.runs run₁ hrun₁ b hb₁
    exact ⟨run₀, hrun₀, hw₀.trans hw₁, hb₀⟩
  keyed := h'.keyed ∘ h.keyed
  blocks x hx := by
    rcases h'.blocks x hx with hx | ⟨htype, hnew⟩
    · exact h.blocks x hx
    · exact .inr ⟨htype, fun hd => hnew (h.drawn _ hd)⟩
  points p hp := by
    rcases h'.points p hp with hp | hnew | ⟨run, hrun, b, hb, rfl⟩
    · exact h.points p hp
    · exact .inr (.inl fun hd => hnew (h.drawn p hd))
    · obtain ⟨run₀, hrun₀, -, hb₀⟩ := h.runs run hrun b hb
      exact .inr (.inr ⟨run₀, hrun₀, b, hb₀, rfl⟩)
  drawn p hp := h'.drawn p (h.drawn p hp)
  fts := h'.fts ∘ h.fts

theorem moves_goTo {stage : Stage}
    (h : ∀ run ∈ s.runs, run.workerId = workerId → ∀ b, stage.unstored = some b → run.stage.unstored = some b) :
    Moves s (s.goTo workerId stage) where
  workers hk := hk.updateWhere fun _ _ => rfl
  runs run hrun b hb := by
    obtain ⟨run₀, hrun₀, rfl⟩ := mem_updateWhere.mp hrun
    split at hb
    · rename_i hw
      rw [if_pos hw]
      exact ⟨run₀, hrun₀, rfl, h run₀ hrun₀ (by simpa using hw) b hb⟩
    · rename_i hw
      rw [if_neg hw]
      exact ⟨run₀, hrun₀, rfl, hb⟩
  keyed := id
  blocks _ := .inl
  points _ := .inl
  drawn _ := id
  fts := id

theorem moves_settle {stage : Stage} (h : stage.unstored = none) : Moves s (s.goTo workerId stage) :=
  moves_goTo fun _ _ _ _ hb => by rw [h] at hb; cases hb

theorem moves_outer {sched : Scheduler.State} {active others : List String} {pending : List Pending} :
    Moves s { s with sched := sched, active := active, others := others, pending := pending } :=
  ⟨id, fun run hrun _ hb => ⟨run, hrun, rfl, hb⟩, id, fun _ => .inl, fun _ => .inl, fun _ => id, id⟩

theorem runOf_eq_some (h : runOf s workerId = some run) : run ∈ s.runs ∧ run.workerId = workerId :=
  ⟨List.mem_of_find?_eq_some h, by simpa using List.find?_some h⟩

/-! ## The invariant -/

structure Inv (s : State) : Prop where
  workers : Keyed Run.workerId s.runs
  keyed : Keyed CortrixBlock.blockId s.rows.blocks
  fts : Keyed DocFtsRow.docId s.docFts
  drawn : ∀ x ∈ s.rows.blocks, x.blockType = kBlockDocSummary → x.blockId ∈ s.drawn
  /-- A block to be inserted is a summary whose id no row has. -/
  own : ∀ run ∈ s.runs, ∀ b, run.stage.unstored = some b →
    b.blockId ∈ s.drawn ∧ b.blockType = kBlockDocSummary ∧ ∀ x ∈ s.rows.blocks, x.blockId ≠ b.blockId
  apart : ∀ run ∈ s.runs, ∀ run' ∈ s.runs, ∀ b b', run.stage.unstored = some b → run'.stage.unstored = some b' →
    b.blockId = b'.blockId → run.workerId = run'.workerId
  one : OneSummary s

theorem mem_summaries {docId : String} {x : CortrixBlock} :
    x ∈ summaries s docId ↔ x ∈ s.rows.blocks ∧ x.blockType = kBlockDocSummary ∧ x.docId = docId ∧ x.blockId ∈ s.points := by
  simp [summaries, List.mem_filter, and_assoc]

theorem summaries_nodup (h : Keyed CortrixBlock.blockId s.rows.blocks) (docId : String) :
    ((summaries s docId).map CortrixBlock.blockId).Nodup := h.sublist (List.filter_sublist.map _)

theorem Inv.of_moves (hI : Inv s) (h : Moves s s') : Inv s' where
  workers := h.workers hI.workers
  keyed := h.keyed hI.keyed
  fts := h.fts hI.fts
  drawn x hx htype := by
    rcases h.blocks x hx with hx | ⟨hother, -⟩
    · exact h.drawn _ (hI.drawn x hx htype)
    · exact absurd htype hother
  own run hrun b hb := by
    obtain ⟨run₀, hrun₀, -, hb₀⟩ := h.runs run hrun b hb
    obtain ⟨hdrawn, htype, hfree⟩ := hI.own run₀ hrun₀ b hb₀
    refine ⟨h.drawn _ hdrawn, htype, fun x hx => ?_⟩
    rcases h.blocks x hx with hx | ⟨-, hnew⟩
    · exact hfree x hx
    · exact fun heq => hnew (heq ▸ hdrawn)
  apart run hrun run' hrun' b b' hb hb' heq := by
    obtain ⟨run₀, hrun₀, hw₀, hb₀⟩ := h.runs run hrun b hb
    obtain ⟨run₁, hrun₁, hw₁, hb₁⟩ := h.runs run' hrun' b' hb'
    rw [← hw₀, ← hw₁]
    exact hI.apart run₀ hrun₀ run₁ hrun₁ b b' hb₀ hb₁ heq
  one docId := by
    have hnd : (summaries s' docId).Nodup := (summaries_nodup (h.keyed hI.keyed) docId).of_map _
    refine (hnd.subperm fun x hx => ?_).length_le.trans (hI.one docId)
    obtain ⟨hmem, htype, hdoc, hpoint⟩ := mem_summaries.mp hx
    have hx : x ∈ s.rows.blocks := (h.blocks x hmem).resolve_right fun hother => hother.1 htype
    refine mem_summaries.mpr ⟨hx, htype, hdoc, ?_⟩
    rcases h.points _ hpoint with hp | hnew | ⟨run, hrun, b, hb, hid⟩
    · exact hp
    · exact absurd (hI.drawn x hx htype) hnew
    · exact absurd hid.symm ((hI.own run hrun b hb).2.2 x hx)

/-! ## Steps keep it -/

theorem Inv.begin {active : List String} {pending : List Pending} {vector : Bool} (hI : Inv s)
    (hid : unused s block.blockId = true) (htype : block.blockType = kBlockDocSummary) :
    Inv ({ s with drawn := block.blockId :: s.drawn, active := active, pending := pending }.goTo workerId
      (.begun block vector)) := by
  simp only [unused, Bool.and_eq_true, Bool.not_eq_true', List.any_eq_false, beq_iff_eq, List.contains_eq_mem,
    decide_eq_false_iff_not] at hid
  obtain ⟨⟨hnew, -⟩, hrow⟩ := hid
  -- a call has the block of this step, or the one it had
  have hcases : ∀ r ∈ ({ s with drawn := block.blockId :: s.drawn, active := active, pending := pending }.goTo workerId
      (.begun block vector)).runs, ∀ b, r.stage.unstored = some b →
      r.workerId = workerId ∧ b = block ∨ r ∈ s.runs ∧ r.stage.unstored = some b := by
    intro r hr b hb
    obtain ⟨r₀, hr₀, rfl⟩ := mem_updateWhere.mp hr
    split at hb
    · rename_i hw
      rw [if_pos hw]
      exact .inl ⟨by simpa using hw, (Option.some.inj hb).symm⟩
    · rename_i hw
      rw [if_neg hw]
      exact .inr ⟨hr₀, hb⟩
  exact {
    workers := hI.workers.updateWhere fun _ _ => rfl
    keyed := hI.keyed
    fts := hI.fts
    drawn := fun x hx hs => List.mem_cons_of_mem _ (hI.drawn x hx hs)
    own := fun r hr b hb => by
      rcases hcases r hr b hb with ⟨-, rfl⟩ | ⟨hr, hb⟩
      · exact ⟨List.mem_cons_self, htype, hrow⟩
      · obtain ⟨hd, ht, hfree⟩ := hI.own r hr b hb
        exact ⟨List.mem_cons_of_mem _ hd, ht, hfree⟩
    apart := fun r hr r' hr' b b' hb hb' heq => by
      rcases hcases r hr b hb with ⟨hw, heqb⟩ | ⟨hr₁, hb₁⟩ <;>
        rcases hcases r' hr' b' hb' with ⟨hw', heqb'⟩ | ⟨hr₂, hb₂⟩
      · rw [hw, hw']
      · exact absurd (heqb ▸ heq ▸ (hI.own r' hr₂ b' hb₂).1) hnew
      · exact absurd (heqb' ▸ heq ▸ (hI.own r hr₁ b hb₁).1) hnew
      · exact hI.apart r hr₁ r' hr₂ b b' hb₁ hb₂ heq
    one := hI.one }

theorem moves_draw (blockId : UInt64) : Moves s { s with drawn := blockId :: s.drawn } where
  workers := id
  runs run hrun _ hb := ⟨run, hrun, rfl, hb⟩
  keyed := id
  blocks _ := .inl
  points _ := .inl
  drawn _ := List.mem_cons_of_mem _
  fts := id

theorem inv_generateStep {g : Generated} {appended : Bool} (hI : Inv s) (h : generateStep cfg s run g appended = some s') :
    Inv s' := by
  cases g with
  | failed code msg data | noContent =>
    cases h
    exact hI.of_moves (moves_settle rfl)
  | summary summary blockId vector =>
    simp only [generateStep] at h
    split at h
    · cases h
    · rename_i hid
      rw [Bool.not_eq_true', Bool.not_eq_false] at hid
      split at h
      · cases h
        exact (hI.of_moves (moves_draw blockId)).of_moves (moves_settle rfl)
      · split at h
        · cases h
          exact (hI.of_moves (moves_draw blockId)).of_moves (moves_settle rfl)
        · cases h
          exact hI.begin hid rfl

theorem moves_addPoint (hrun : run ∈ s.runs) (hb : run.stage.unstored = some block) :
    Moves s { s with points := block.blockId :: s.points } where
  workers := id
  runs r hr _ hb := ⟨r, hr, rfl, hb⟩
  keyed := id
  blocks _ := .inl
  points p hp := by
    rcases List.mem_cons.mp hp with rfl | hp
    · exact .inr (.inr ⟨run, hrun, block, hb, rfl⟩)
    · exact .inl hp
  drawn _ := id
  fts := id

theorem Inv.only (hI : Inv s) (hrun : run ∈ s.runs) {r : Run} (hr : r ∈ s.runs) (hw : r.workerId = run.workerId) :
    r = run := hI.workers.eq_of_key hr hrun hw

theorem inv_addPointsStep {ok kept : Bool} (hI : Inv s) (hrun : run ∈ s.runs)
    (h : addPointsStep s run ok kept = some s') : Inv s' := by
  unfold addPointsStep at h
  split at h
  · rename_i block vector hstage
    have hb : run.stage.unstored = some block := by rw [hstage]; rfl
    have hkeep : ∀ r ∈ s.runs, r.workerId = run.workerId → ∀ b, (Stage.pointed block).unstored = some b →
        r.stage.unstored = some b := by
      intro r hr hw b hbb
      rw [hI.only hrun hr hw, hb]
      exact hbb
    split at h
    · cases h
      exact hI.of_moves (moves_goTo hkeep)
    · split at h
      · cases h
        exact hI.of_moves ((moves_addPoint hrun hb).trans (moves_goTo hkeep))
      · cases h
        split
        · exact hI.of_moves ((moves_addPoint hrun hb).trans (moves_settle rfl))
        · exact hI.of_moves (moves_settle rfl)
  · cases h

theorem insertStep_cases {ok : Bool} (hI : Inv s) (hrun : run ∈ s.runs) (h : insertStep s run ok = some s') :
    ∃ block, run.stage = .pointed block ∧
      (ok = true ∧ s' = { s with rows := { s.rows with blocks := s.rows.blocks ++ [block] } }.goTo run.workerId
          (.inserted block.blockId) ∨
        ok = false ∧ s' = s.goTo run.workerId (.failing block.blockId "doc_summary block_insert failed")) := by
  unfold insertStep at h
  split at h
  · rename_i block hstage
    refine ⟨block, hstage, ?_⟩
    have hfree := (hI.own run hrun block (by rw [hstage]; rfl)).2.2
    have hins : insertRow CortrixBlock.blockId block s.rows.blocks = some (s.rows.blocks ++ [block]) :=
      insertRow_eq_some.mpr ⟨hfree, rfl⟩
    cases ok with
    | true =>
      rw [if_pos rfl, hins] at h
      exact .inl ⟨rfl, (Option.some.inj h).symm⟩
    | false =>
      rw [if_neg (by decide)] at h
      exact .inr ⟨rfl, (Option.some.inj h).symm⟩
  · cases h

theorem summaries_insert (s : State) (block : CortrixBlock) (docId : String) (workerId : Int) (stage : Stage) :
    summaries ({ s with rows := { s.rows with blocks := s.rows.blocks ++ [block] } }.goTo workerId stage) docId =
      summaries s docId ++ [block].filter fun b =>
        b.blockType == kBlockDocSummary && b.docId == docId && s.points.contains b.blockId :=
  List.filter_append ..

theorem Inv.insert (hI : Inv s) (hrun : run ∈ s.runs) (hstage : run.stage = .pointed block)
    (hfresh : block.blockId ∈ s.points → summaries s block.docId = []) :
    Inv ({ s with rows := { s.rows with blocks := s.rows.blocks ++ [block] } }.goTo run.workerId
      (.inserted block.blockId)) := by
  have hb : run.stage.unstored = some block := by rw [hstage]; rfl
  obtain ⟨hdrawn, htype, hfree⟩ := hI.own run hrun block hb
  -- the calls with a block to insert are the others
  have hcases : ∀ r ∈ ({ s with rows := { s.rows with blocks := s.rows.blocks ++ [block] } }.goTo run.workerId
      (.inserted block.blockId)).runs, ∀ b, r.stage.unstored = some b →
      r ∈ s.runs ∧ r.workerId ≠ run.workerId := by
    intro r hr b hbb
    obtain ⟨r₀, hr₀, rfl⟩ := mem_updateWhere.mp hr
    split at hbb
    · cases hbb
    · rename_i hw
      rw [if_neg hw]
      exact ⟨hr₀, by simpa using hw⟩
  exact {
    workers := hI.workers.updateWhere fun _ _ => rfl
    keyed := keyed_append.mpr ⟨hI.keyed, hfree⟩
    fts := hI.fts
    drawn := fun x hx hs => by
      rcases List.mem_append.mp hx with hx | hx
      · exact hI.drawn x hx hs
      · rwa [List.mem_singleton.mp hx]
    own := fun r hr b hbb => by
      obtain ⟨hr, hw⟩ := hcases r hr b hbb
      obtain ⟨hd, ht, hrow⟩ := hI.own r hr b hbb
      refine ⟨hd, ht, fun x hx => ?_⟩
      rcases List.mem_append.mp hx with hx | hx
      · exact hrow x hx
      · rw [List.mem_singleton.mp hx]
        exact fun heq => hw (hI.apart r hr run hrun b block hbb hb heq.symm)
    apart := fun r hr r' hr' b b' hbb hbb' heq =>
      hI.apart r (hcases r hr b hbb).1 r' (hcases r' hr' b' hbb').1 b b' hbb hbb' heq
    one := fun docId => by
      rw [summaries_insert, List.length_append]
      by_cases hnew : block.docId = docId ∧ block.blockId ∈ s.points
      · rw [← hnew.1, hfresh hnew.2, List.length_nil, zero_add]
        exact List.length_filter_le _ [block]
      · rw [List.filter_cons_of_neg (by
          simp only [Bool.and_eq_true, beq_iff_eq, List.contains_eq_mem, decide_eq_true_eq]
          exact fun hall => hnew ⟨hall.1.2, hall.2⟩)]
        exact hI.one docId }

theorem inv_insertStep {ok : Bool} (hI : Inv s) (hrun : runOf s workerId = some run)
    (hfresh : Fresh s (.insert workerId ok)) (h : insertStep s run ok = some s') : Inv s' := by
  obtain ⟨hmem, hw⟩ := runOf_eq_some hrun
  obtain ⟨block, hstage, ⟨rfl, rfl⟩ | ⟨-, rfl⟩⟩ := insertStep_cases hI hmem h
  · exact hI.insert hmem hstage (hfresh run block hrun hstage)
  · exact hI.of_moves (moves_settle rfl)

theorem inv_commitStep {appended : Bool} (hI : Inv s) (h : commitStep s run appended = some s') : Inv s' := by
  unfold commitStep at h
  split at h
  · split at h
    · cases h
      exact hI.of_moves (moves_outer.trans (moves_settle rfl))
    · cases h
      exact hI.of_moves (moves_outer.trans (moves_settle rfl))
  · cases h

theorem inv_rollbackStep {appended rowGone pointGone : Bool} (hI : Inv s)
    (h : rollbackStep s run appended rowGone pointGone = some s') : Inv s' := by
  unfold rollbackStep at h
  split at h
  · rename_i blockId msg hstage
    have hset := hI.of_moves (@moves_settle s run.workerId (.ending (writeFailed msg run.task.docId)) rfl)
    split at h
    · cases h
      exact hset
    · cases h
      refine hset.of_moves ⟨id, fun r hr _ hb => ⟨r, hr, rfl, hb⟩, ?_, ?_, ?_, fun _ => id, id⟩
      · intro hk
        split
        · exact hk.deleteWhere
        · exact hk
      · intro x hx
        split at hx
        · exact .inl (mem_deleteWhere.mp hx).1
        · exact .inl hx
      · intro p hp
        dsimp only at hp
        split at hp
        · exact .inl (List.mem_of_mem_filter hp)
        · exact .inl hp
  · cases h

theorem moves_addBlock {b : CortrixBlock} {blocks : List CortrixBlock} (htype : b.blockType ≠ kBlockDocSummary)
    (hid : b.blockId ∉ s.drawn) (hins : insertRow CortrixBlock.blockId b s.rows.blocks = some blocks) :
    Moves s { s with rows := { s.rows with blocks := blocks } } where
  workers := id
  runs r hr _ hb := ⟨r, hr, rfl, hb⟩
  keyed hk := hk.insertRow hins
  blocks x hx := by
    obtain ⟨-, rfl⟩ := insertRow_eq_some.mp hins
    rcases List.mem_append.mp hx with hx | hx
    · exact .inl hx
    · rw [List.mem_singleton.mp hx]
      exact .inr ⟨htype, hid⟩
  points _ := .inl
  drawn _ := id
  fts := id

theorem moves_foreignPoint {blockId : UInt64} (hid : blockId ∉ s.drawn) :
    Moves s { s with points := blockId :: s.points } where
  workers := id
  runs r hr _ hb := ⟨r, hr, rfl, hb⟩
  keyed := id
  blocks _ := .inl
  points p hp := by
    rcases List.mem_cons.mp hp with rfl | hp
    · exact .inr (.inl hid)
    · exact .inl hp
  drawn _ := id
  fts := id

theorem moves_docFts {docFts : List DocFtsRow} (h : Keyed DocFtsRow.docId s.docFts → Keyed DocFtsRow.docId docFts) :
    Moves s { s with docFts := docFts } :=
  ⟨id, fun run hrun _ hb => ⟨run, hrun, rfl, hb⟩, id, fun _ => .inl, fun _ => .inl, fun _ => id, h⟩

theorem moves_start {h : Held} (hnone : runOf s workerId = none) :
    Moves s { s with runs := ⟨workerId, h.task, .generating⟩ :: s.runs } where
  workers hk := by
    refine List.nodup_cons.mpr ⟨fun hmem => ?_, hk⟩
    obtain ⟨r, hr, hw⟩ := List.mem_map.mp hmem
    have := List.find?_eq_none.mp hnone r hr
    simp only [beq_iff_eq] at this
    exact this hw
  runs r hr b hb := by
    rcases List.mem_cons.mp hr with rfl | hr
    · cases hb
    · exact ⟨r, hr, rfl, hb⟩
  keyed := id
  blocks _ := .inl
  points _ := .inl
  drawn _ := id
  fts := id

theorem inv_step {a : Act} (hI : Inv s) (hfresh : Fresh s a) (h : step cfg s a = some s') : Inv s' := by
  cases a with
  | sched a =>
    simp only [step] at h
    split at h
    · obtain ⟨sched, -, rfl⟩ := Option.map_eq_some_iff.mp h
      exact hI.of_moves moves_outer
    · cases h
  | start workerId =>
    simp only [step] at h
    split at h
    · rename_i hfree
      rw [Bool.and_eq_true, Option.isNone_iff_eq_none] at hfree
      obtain ⟨held, -, rfl⟩ := Option.map_eq_some_iff.mp h
      exact hI.of_moves (moves_start hfree.2)
    · cases h
  | generate workerId g appended =>
    obtain ⟨run, -, h⟩ := Option.bind_eq_some_iff.mp h
    split at h
    · exact inv_generateStep hI h
    · cases h
  | addPoints workerId ok kept =>
    obtain ⟨run, hrun, h⟩ := Option.bind_eq_some_iff.mp h
    exact inv_addPointsStep hI (runOf_eq_some hrun).1 h
  | insert workerId ok =>
    obtain ⟨run, hrun, h⟩ := Option.bind_eq_some_iff.mp h
    exact inv_insertStep hI hrun hfresh h
  | commit workerId appended =>
    obtain ⟨run, -, h⟩ := Option.bind_eq_some_iff.mp h
    exact inv_commitStep hI h
  | rollback workerId appended rowGone pointGone =>
    obtain ⟨run, -, h⟩ := Option.bind_eq_some_iff.mp h
    exact inv_rollbackStep hI h
  | finalize workerId now =>
    obtain ⟨run, -, h⟩ := Option.bind_eq_some_iff.mp h
    split at h
    · obtain ⟨sched, -, rfl⟩ := Option.map_eq_some_iff.mp h
      exact hI.of_moves (moves_outer.trans (moves_settle rfl))
    · cases h
  | leave workerId outcome =>
    obtain ⟨run, -, h⟩ := Option.bind_eq_some_iff.mp h
    have hleave : ∀ sched, Inv { s with sched := sched, runs := s.runs.filter fun r => r.workerId != workerId } := by
      intro sched
      refine hI.of_moves ⟨fun hk => hk.sublist (List.filter_sublist.map _), ?_, id, fun _ => .inl, fun _ => .inl,
        fun _ => id, id⟩
      exact fun r hr _ hb => ⟨r, List.mem_of_mem_filter hr, rfl, hb⟩
    split at h
    · cases h
    · obtain ⟨sched, -, rfl⟩ := Option.map_eq_some_iff.mp h
      exact hleave sched
    · obtain ⟨sched, -, rfl⟩ := Option.map_eq_some_iff.mp h
      exact hleave sched
    · cases h
  | crash lost rowGone pointGone nowUnix zombieHours now =>
    cases h
    refine hI.of_moves ⟨fun _ => Keyed.nil, fun r hr => absurd hr List.not_mem_nil, fun hk => hk.deleteWhere, ?_, ?_,
      fun _ => id, id⟩
    · exact fun x hx => .inl (mem_deleteWhere.mp hx).1
    · exact fun p hp => .inl (List.mem_of_mem_filter (List.mem_of_mem_filter hp))
  | compact | unlock docId =>
    cases h
    exact hI.of_moves moves_outer
  | lock docId =>
    simp only [step] at h
    split at h
    · cases h
    · cases h
      exact hI.of_moves moves_outer
  | addBlock b =>
    simp only [step] at h
    split at h
    · cases h
    · rename_i hb
      rw [not_or] at hb
      obtain ⟨blocks, hins, rfl⟩ := Option.map_eq_some_iff.mp h
      exact hI.of_moves (moves_addBlock hb.1 hb.2 hins)
  | addPoint blockId =>
    simp only [step] at h
    split at h
    · cases h
    · rename_i hid
      cases h
      exact hI.of_moves (moves_foreignPoint hid)
  | deleteBlock blockId =>
    cases h
    exact hI.of_moves ⟨id, fun r hr _ hb => ⟨r, hr, rfl, hb⟩, fun hk => hk.deleteWhere,
      fun x hx => .inl (mem_deleteWhere.mp hx).1, fun _ => .inl, fun _ => id, id⟩
  | deletePoint blockId =>
    cases h
    exact hI.of_moves ⟨id, fun r hr _ hb => ⟨r, hr, rfl, hb⟩, id, fun _ => .inl,
      fun p hp => .inl (List.mem_of_mem_filter hp), fun _ => id, id⟩
  | documents docs =>
    cases h
    exact hI.of_moves ⟨id, fun r hr _ hb => ⟨r, hr, rfl, hb⟩, id, fun _ => .inl, fun _ => .inl, fun _ => id, id⟩
  | upsertDocFts row =>
    simp only [step] at h
    split at h
    · cases h
    · cases h
      refine hI.of_moves (moves_docFts fun hk => keyed_append.mpr ⟨hk.deleteWhere, fun x hx => ?_⟩)
      simpa using (mem_deleteWhere.mp hx).2
  | deleteDocFts docId =>
    cases h
    exact hI.of_moves (moves_docFts fun hk => hk.deleteWhere)

/-- The insert behind which there is one summary found none. -/
theorem fresh_of_one {a : Act} (hI : Inv s) (h : step cfg s a = some s') (hone : OneSummary s') : Fresh s a := by
  cases a with
  | insert workerId ok =>
    cases ok with
    | false => exact trivial
    | true =>
      intro run block hrun hstage hpoint
      obtain ⟨run', hrun', h⟩ := Option.bind_eq_some_iff.mp h
      rw [hrun] at hrun'
      cases hrun'
      obtain ⟨hmem, -⟩ := runOf_eq_some hrun
      obtain ⟨block', hstage', ⟨-, rfl⟩ | ⟨hfalse, -⟩⟩ := insertStep_cases hI hmem h
      · obtain rfl : block = block' := by
          rw [hstage] at hstage'
          exact Stage.pointed.inj hstage'
        have hlen := hone block.docId
        have htype := (hI.own run hmem block (by rw [hstage]; rfl)).2.1
        rw [summaries_insert, List.length_append, List.filter_cons_of_pos (by simp [htype, hpoint])] at hlen
        exact List.eq_nil_of_length_eq_zero (by simpa using hlen)
      · cases hfalse
  | _ => exact trivial

theorem inv_init (tasks : Tasks) : Inv (init tasks) := by
  refine ⟨Keyed.nil, Keyed.nil, Keyed.nil, ?_, ?_, ?_, fun _ => Nat.zero_le 1⟩ <;> intro x hx <;> cases hx

/-! ## Scores -/

theorem count_filterMap {α β : Type} {key : β → String} {f : α → Option β} (docId : String) (l : List α) :
    ((l.filterMap f).map key).count docId = (l.filter fun a => (f a).any fun b => key b == docId).length := by
  induction l with
  | nil => rfl
  | cons a l ih =>
    rw [List.filterMap_cons, List.filter_cons]
    cases hf : f a with
    | none => simpa using ih
    | some b =>
      rw [List.map_cons, List.count_cons, ih, Option.any_some]
      split <;> rfl

theorem count_recall_le {lookupOk : Bool} {topK k : Int} {raw : List (UInt64 × Rat)} (docId : String)
    (hraw : IndexSearch s.points k raw) :
    ((recallDocSummaryHnsw s.rows lookupOk topK raw).map (·.docId)).count docId ≤ (summaries s docId).length := by
  obtain ⟨-, hnd, hlive⟩ := hraw
  refine ((subperm_map DocDiscoveryHit.docId (recall_subperm lookupOk raw)).count_le docId).trans ?_
  rw [count_filterMap, ← List.length_map (·.1), ← @List.length_map _ _ (summaries s docId) CortrixBlock.blockId]
  refine ((hnd.sublist (List.filter_sublist.map _)).subperm fun p hp => ?_).length_le
  obtain ⟨point, hpoint, rfl⟩ := List.mem_map.mp hp
  obtain ⟨hmem, hdoc⟩ := List.mem_filter.mp hpoint
  obtain ⟨hit, hhit, hid⟩ := (Option.any_eq_true _ _).mp hdoc
  obtain ⟨b, hb, htype, hbdoc⟩ := summaryHit_eq_some hhit
  obtain ⟨hbmem, hbid⟩ := lookup_eq_some hb
  refine List.mem_map.mpr ⟨b, mem_summaries.mpr ⟨hbmem, htype, ?_, ?_⟩, hbid⟩
  · rw [← hbdoc]
    exact beq_iff_eq.mp hid
  · rw [hbid]
    exact hlive point hmem

theorem count_docFts_le {bm25 : DocFtsRow → Option Rat} {topK : Int} {hits : List DocFtsHit} (docId : String)
    (hkeyed : Keyed DocFtsRow.docId s.docFts) (h : SearchDocFts5 s.rows s.docFts bm25 topK hits) :
    (hits.map (·.docId)).count docId ≤ 1 := by
  obtain ⟨rows, hsub, rfl⟩ := searchDocFts5_subperm h
  have hids := (subperm_map (fun x : DocFtsRow × Rat => x.1.docId) hsub).trans (liveRows_docIds_sublist bm25).subperm
  rw [List.map_map]
  exact (hids.count_le docId).trans (List.nodup_iff_count_le_one.mp hkeyed docId)

theorem rrfK_pos (k : Int) : 0 < rrfK k := by
  unfold rrfK kDocDiscoveryRrfK
  split <;> omega

theorem countsOnce_of_one (hfts : Keyed DocFtsRow.docId s.docFts) (hone : OneSummary s) : CountsOnce s := by
  intro lookupOk topK raw bm25 ftsHits cut k out hraw hsearch hfuse hit hhit
  have hscore := (fuse_spec (recallDocSummaryHnsw s.rows lookupOk topK raw) ftsHits k hit.docId).2
  rw [← (mem_fuseDocDiscovery hfuse hhit).1] at hscore
  exact ⟨hscore, pathScore_le (rrfK_pos k) ((count_recall_le hit.docId hraw).trans (hone hit.docId)),
    pathScore_le (rrfK_pos k) (count_docFts_le hit.docId hfts hsearch)⟩

/-- Every state of a run has one summary a document, counted once, exactly when no delivery stores a second one. -/
theorem one_summary_iff (cfg : Config) (tasks : Tasks) (as : List Act) (s : State)
    (hrun : Lib.run (step cfg) (init tasks) as = some s) :
    (∀ pre t, pre <+: as → Lib.run (step cfg) (init tasks) pre = some t → OneSummary t ∧ CountsOnce t) ↔
      Along (step cfg) Fresh (init tasks) as :=
  along_iff_prefixes Inv (fun t => OneSummary t ∧ CountsOnce t) (fun _ => True)
    (fun hI => ⟨hI.one, countsOnce_of_one hI.fts hI.one⟩) (fun hI _ hstep hgood => fresh_of_one hI hstep hgood.1)
    (fun hI _ hq hstep => inv_step hI hq hstep) (inv_init tasks) (fun _ _ => trivial) hrun

def Quiescent (s : State) : Bool :=
  s.runs.isEmpty && s.pending.isEmpty && s.sched.tasks.all fun r => !r.status.live

def flatConfig : Config := ⟨flatEnv, "n", ⟨"v1", "m"⟩⟩

def summaryRequest (docId : String) : SubmitRequest := { upload docId docId "" with taskType := kTaskDocSummary }

def delivery (blockId : UInt64) : List Act :=
  [.start 1, .generate 1 (.summary ⟨"s", [], [], ""⟩ blockId true) true, .addPoints 1 true false, .insert 1 true,
    .commit 1 true]

def submitted : List Act :=
  [.sched (.enqueue (summaryRequest "d") 0 0 none), .sched (.enqueueCreate "t" 1), .sched .enqueueReturn,
    .sched (.dequeue 1 (some (createdTask flatEnv "t" 1 (summaryRequest "d")))), .sched (.dequeueMark 2)]

/-- A crash, and the delivery after the restart. -/
def delivered : List Act :=
  [.crash (fun _ => false) (fun _ => true) (fun _ => true) 10 24 11,
    .sched (.dequeue 1 (some { createdTask flatEnv "t" 1 (summaryRequest "d") with updatedAt := 11 })),
    .sched (.dequeueMark 12)] ++ delivery 2 ++ [.finalize 1 13, .leave 1 .returned]

/-- A crash between the commit and the mark of the task. -/
def redelivery : List Act := submitted ++ delivery 1 ++ delivered

/-- A crash before the insert: recovery takes the point away. -/
def retried : List Act := submitted ++ (delivery 1).take 3 ++ delivered

theorem one_summary_iff_retried : ∃ s, Lib.run (step flatConfig) (init []) retried = some s ∧
    (summaries s "d").length = 1 ∧ ∀ pre t, pre <+: retried → Lib.run (step flatConfig) (init []) pre = some t →
      OneSummary t ∧ CountsOnce t := by
  have h : (Lib.run (step flatConfig) (init []) retried).any (fun s => (summaries s "d").length == 1) = true := by
    decide +kernel
  obtain ⟨s, hs, h⟩ := (Option.any_eq_true _ _).mp h
  have hfresh : Along (step flatConfig) Fresh (init []) retried := by decide +kernel
  exact ⟨s, hs, beq_iff_eq.mp h, (one_summary_iff flatConfig [] retried s hs).mpr hfresh⟩

/-- After the second delivery the document has two summaries. -/
theorem redelivery_two_summaries : ∃ s, Lib.run (step flatConfig) (init []) redelivery = some s ∧ Quiescent s = true ∧
    ¬ OneSummary s := by
  have h : (Lib.run (step flatConfig) (init []) redelivery).any
      (fun s => Quiescent s && (summaries s "d").length == 2) = true := by
    decide +kernel
  obtain ⟨s, hs, h⟩ := (Option.any_eq_true _ _).mp h
  simp only [Bool.and_eq_true, beq_iff_eq] at h
  refine ⟨s, hs, h.1, fun hone => ?_⟩
  have := hone "d"
  omega

end Cortrix.DocSummary
