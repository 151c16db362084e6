import Cortrix.Common.Ints
import Cortrix.Common.Json

/-!
# Extracting memories from a conversation

`MemoryExtractor` over the memory blocks of a namespace, with `MemoryBlockAdapter` and `MemoryContradictionAdapter`.

* `Env` : the clock, the ids drawn, the order of a scan, and which calls of the store succeed.
-/

namespace Cortrix.Memory
open Lib Metadata

namespace MemoryExtractor

/-! ## Types and statuses -/

inductive MemoryType
  | kFact
  | kPreference
  | kEvent
  | kUnknown
  deriving DecidableEq

def MemoryType.toText : MemoryType → String
  | .kFact => "fact"
  | .kPreference => "preference"
  | .kEvent => "event"
  | .kUnknown => "unknown"

/-- `ParseMemoryType`; the case of the letters does not matter. -/
def parseMemoryType (s : String) : MemoryType :=
  match String.ofList (s.toList.map Char.toLower) with
  | "fact" => .kFact
  | "preference" => .kPreference
  | "event" => .kEvent
  | _ => .kUnknown

structure ExtractedMemory where
  blockId : String := ""
  type : MemoryType := .kEvent
  content : String
  confidence : Rat := 0
  sourceInteractionId : String := ""
  sourceSessionId : String := ""
  extractionMethod : String := "llm"

structure ContradictionPair where
  newContent : String
  oldBlockId : String
  oldContent : String
  reason : String
  confidence : Rat

structure CandidateBlock where
  blockId : String
  content : String
  type : MemoryType

structure Config where
  enabled : Bool := true
  llmModel : String := "gpt-4o-mini"
  windowSizeDefault : Int := 3
  preferenceImmunizationThreshold : Int := 2
  preferenceImmunizationWindowDays : Int := 30
  autoRevokeConfidenceThreshold : Rat := 7 / 10
  contradictionTopK : Int := 5

/-! ## The store -/

structure Block where
  blockId : String
  contentText : Option String
  metadata : Metadata

/-- The memory blocks of a namespace, in the order of the table. -/
structure Store where
  rows : List Block
  keyed : Keyed Block.blockId rows

def Block.userId (b : Block) : String := jsonStr b.metadata "user_id"

def Block.status (b : Block) : String := jsonStr b.metadata "status"

def Block.memoryType (b : Block) : String := jsonStr b.metadata "memory_type"

def Block.content (b : Block) : String := b.contentText.getD ""

/-- The content bound by an insert: no text for the empty one. -/
def bindContent (s : String) : Option String := if s = "" then none else some (cText s)

/-- `InsertMemoryBlock`; `none` when the id is taken. -/
def insertMemoryBlock (block : Block) (t : Store) : Option Store :=
  if h : ∀ r ∈ t.rows, r.blockId ≠ block.blockId then some ⟨t.rows ++ [block], keyed_append.mpr ⟨t.keyed, h⟩⟩ else none

/-- `UpdateMemoryBlock`: the metadata of the row is overwritten. -/
def updateMemoryBlock (blockId : String) (metadata : Metadata) (t : Store) : Store where
  rows := updateWhere (fun r => r.blockId == blockId) (fun r => { r with metadata := metadata }) t.rows
  keyed := t.keyed.updateWhere fun _ _ => rfl

def getMemoryBlock (blockId : String) (t : Store) : Option Block := lookup Block.blockId blockId t.rows

/-- A value of a row as SQL orders it. -/
inductive SqlValue
  | null
  | num (q : Rat)
  | text (s : String)

/-- `a` stands behind `b` or beside it in descending order. -/
def SqlValue.le : SqlValue → SqlValue → Bool
  | .null, _ => true
  | .num _, .null => false
  | .num a, .num b => a ≤ b
  | .num _, .text _ => true
  | .text _, .null => false
  | .text _, .num _ => false
  | .text a, .text b => a ≤ b

/-- `json_extract(metadata_json, '$.created_at')`; `dump` is the text of an array or object. -/
def createdAt (dump : Json → String) (b : Block) : SqlValue :=
  match getKey "created_at" b.metadata with
  | none => .null
  | some .null => .null
  | some (.bool v) => .num (if v then 1 else 0)
  | some (.int n) => .num n
  | some (.float q) => .num q
  | some (.str s) => .text s
  | some (.arr items) => .text (dump (.arr items))
  | some (.obj fields) => .text (dump (.obj fields))

/-! ## What the model replies -/

inductive StatusCode
  | kUnavailable
  | kPermissionDenied
  | other

/-- A reply, by the JSON of its text, of its outermost `[ .. ]` and of its text without a fence around it. -/
inductive Reply
  | failed (code : StatusCode)
  | content (whole bracketed unfenced : Option Json)

def clamp (q : Rat) : Rat := if q < 0 then 0 else if 1 < q then 1 else q

def numberOf : Option Json → Option Rat
  | some (.int n) => some n
  | some (.float q) => some q
  | _ => none

/-- One entry of the extraction; `none` when it has no text `content`. -/
def parseEntry : Json → Option ExtractedMemory
  | .obj item =>
    match getKey "content" item with
    | some (.str content) =>
      let t :=
        match getKey "type" item with
        | some (.str s) => parseMemoryType s
        | _ => .kUnknown
      some
        { content := content
          -- an unknown type falls back to event
          type := if t = .kUnknown then .kEvent else t
          confidence := ((numberOf (getKey "confidence" item)).map clamp).getD 0 }
    | _ => none
  | _ => none

/-- `ParseExtractionJson`: an array, of the whole text or of its outermost brackets, every entry of which is good. -/
def parseExtractionJson (whole bracketed : Option Json) : Option (List ExtractedMemory) :=
  match whole with
  | some (.arr items) => items.mapM parseEntry
  | _ =>
    match bracketed with
    | some (.arr items) => items.mapM parseEntry
    | _ => none

structure Judgment where
  isContradiction : Bool
  reason : String
  confidence : Rat

def parseJudgmentJson (unfenced : Option Json) : Option Judgment :=
  match unfenced with
  | some (.obj j) =>
    let verdict :=
      match getKey "is_contradiction" j with
      | some (.bool b) => some b
      | some (.int n) => some (n != 0)
      | some (.float q) => some (q != 0)
      | _ => none
    verdict.map fun b => ⟨b, jsonStr j "reason", ((numberOf (getKey "confidence" j)).map clamp).getD 0⟩
  | _ => none

/-- `Judge`: a reply that fails or cannot be read gives no verdict. -/
def Reply.judgment : Reply → Option Judgment
  | .failed _ => none
  | .content _ _ unfenced => parseJudgmentJson unfenced

/-- What is asked of the model; the text is rendered from it. -/
inductive Prompt
  | extract (windowText : String)
  | judge (newFact oldFact : String)

/-! ## What surrounds a run -/

/-- A call of the store: for memory `i` of the batch, or for contradiction `j`. -/
inductive StoreCall
  | findCandidates (i : Nat)
  | findMatchingPreference (i : Nat)
  | getMatch (i : Nat)
  | updateMatch (i : Nat)
  | insert (i : Nat)
  | getOld (j : Nat)
  | updateOld (j : Nat)

structure Env where
  succeeds : StoreCall → Bool := fun _ => true
  /-- The id drawn for memory `i`. -/
  ulid : Nat → String
  now : String
  /-- `ParseIso8601ToEpoch`; `-1` for a text that tells no time. -/
  epochOf : String → Int
  dump : Json → String
  /-- The order in which a statement without `ORDER BY` comes to the rows. -/
  scan : List Block → List Block := id
  scan_perm : ∀ rows, (scan rows).Perm rows

/-! ## Contradictions -/

/-- `FindCandidates`: the active facts and preferences, newest first, at most `top_k`. -/
def findCandidates (env : Env) (i : Nat) (topK : Int) (t : Store) : List CandidateBlock :=
  if env.succeeds (.findCandidates i) then
    let rows := (env.scan t.rows).filter fun r =>
      r.status == "active" && (r.memoryType == "fact" || r.memoryType == "preference")
    let sorted := rows.mergeSort fun a b => (createdAt env.dump b).le (createdAt env.dump a)
    (sorted.take (if 0 < topK then topK.toNat else 5)).map fun r => ⟨r.blockId, r.content, parseMemoryType r.memoryType⟩
  else []

/-- The candidates that are judged: facts only. -/
def judged (cands : List CandidateBlock) : List CandidateBlock := cands.filter fun c => c.type = .kFact

/-- The pair of a new fact and a candidate, when the reply finds a contradiction. -/
def judgePair (nm : ExtractedMemory) (cand : CandidateBlock) (reply : Reply) : Option ContradictionPair :=
  match reply.judgment with
  | some jm => if jm.isContradiction then some ⟨nm.content, cand.blockId, cand.content, jm.reason, jm.confidence⟩ else none
  | none => none

/-- The candidates of one new fact judged one after the other, from reply `n` on. -/
def judgeCandidates (replies : Nat → Reply) (nm : ExtractedMemory) : Nat → List CandidateBlock → List ContradictionPair
  | _, [] => []
  | n, cand :: cands => (judgePair nm cand (replies n)).toList ++ judgeCandidates replies nm (n + 1) cands

/-- `FindContradictions` for the memories from `i` on, with the replies from `n` on: the pairs and what was asked. -/
def findContradictions (cfg : Config) (env : Env) (replies : Nat → Reply) (t : Store) :
    Nat → Nat → List ExtractedMemory → List ContradictionPair × List Prompt
  | _, _, [] => ([], [])
  | i, n, nm :: rest =>
    if nm.type ≠ .kFact then findContradictions cfg env replies t (i + 1) n rest
    else
      let cands := judged (findCandidates env i cfg.contradictionTopK t)
      let (pairs, prompts) := findContradictions cfg env replies t (i + 1) (n + cands.length) rest
      (judgeCandidates replies nm n cands ++ pairs,
        (cands.map fun c => Prompt.judge nm.content c.content) ++ prompts)

/-! ## Repeated preferences -/

/-- `FindMatchingPreference`: an active preference of the same text. -/
def findMatchingPreference (env : Env) (i : Nat) (content : String) (t : Store) : Option Block :=
  if env.succeeds (.findMatchingPreference i) then
    (env.scan t.rows).find? fun r =>
      r.status == "active" && r.memoryType == "preference" && r.contentText == some (cText content)
  else none

def isPreferenceImmune (epochOf : String → Int) (existing : Int) (firstAt now : String) (threshold windowDays : Int) :
    Bool :=
  if toInt (existing + 1) < threshold then false
  else if epochOf firstAt < 0 ∨ epochOf now < 0 then true
  else epochOf now - epochOf firstAt ≤ windowDays * 24 * 60 * 60

/-- The `mention_count` of a block as it is stored; 1 when it has none. -/
def mentionCount (m : Metadata) : Int :=
  match getKey "mention_count" m with
  | some (.int n) => n
  | _ => 1

def upgraded (cfg : Config) (env : Env) (m : Metadata) : Metadata :=
  let count := toInt (mentionCount m)
  let firstAt :=
    match getKey "first_mentioned_at" m with
    | some (.str s) => s
    | _ => env.now
  let immune := isPreferenceImmune env.epochOf count firstAt env.now cfg.preferenceImmunizationThreshold
    cfg.preferenceImmunizationWindowDays
  setKey "status" (.str "active") (setKey "immune" (.bool immune) (setKey "mention_count" (.int (toInt (count + 1))) m))

/-- `MaybeUpgradePreference`: the store after the upgrade, or `none` when there was none. -/
def maybeUpgradePreference (cfg : Config) (env : Env) (i : Nat) (mem : ExtractedMemory) (t : Store) : Option Store :=
  match findMatchingPreference env i mem.content t with
  | none => none
  | some found =>
    match (if env.succeeds (.getMatch i) then getMemoryBlock found.blockId t else none) with
    | none => none
    | some block =>
      if env.succeeds (.updateMatch i) then some (updateMemoryBlock block.blockId (upgraded cfg env block.metadata) t)
      else none

/-! ## Writing a batch -/

def newBlock (cfg : Config) (env : Env) (userId : String) (i : Nat) (m : ExtractedMemory) : Block where
  blockId := env.ulid i
  contentText := bindContent m.content
  metadata :=
    [("memory_type", .str m.type.toText), ("status", .str "active"), ("created_at", .str env.now),
        ("source_session_id", .str m.sourceSessionId), ("source_interaction_id", .str m.sourceInteractionId),
        ("extraction_method", .str m.extractionMethod), ("confidence", .float m.confidence),
        ("llm_model", .str cfg.llmModel), ("user_id", .str userId)] ++
      if m.type = .kPreference then [("mention_count", .int 1), ("first_mentioned_at", .str env.now)] else []

/-- A repeated preference upgrades the block that is there, and gets no id of its own. -/
def upgrade (cfg : Config) (env : Env) (i : Nat) (m : ExtractedMemory) (t : Store) : Option Store :=
  if m.type = .kPreference then maybeUpgradePreference cfg env i m t else none

/-- One memory of the batch; `none` when its insert fails. -/
def writeMemory (cfg : Config) (env : Env) (userId : String) (i : Nat) (m : ExtractedMemory) (t : Store) :
    Option (ExtractedMemory × Store) :=
  match upgrade cfg env i m t with
  | some t' => some (m, t')
  | none =>
    (if env.succeeds (.insert i) then insertMemoryBlock (newBlock cfg env userId i m) t else none).map fun t' =>
      ({ m with blockId := env.ulid i }, t')

/-- The first loop of `WriteWithOperationLog`, from memory `i` on; an error ends it with the store as it is. -/
def writeMemories (cfg : Config) (env : Env) (userId : String) :
    Nat → List ExtractedMemory → Store → Except Store (List ExtractedMemory × Store)
  | _, [], t => .ok ([], t)
  | i, m :: rest, t =>
    match writeMemory cfg env userId i m t with
    | none => .error t
    | some (m', t') =>
      match writeMemories cfg env userId (i + 1) rest t' with
      | .error e => .error e
      | .ok (rest', t'') => .ok (m' :: rest', t'')

/-- The id of the first memory of that content; `""` when there is none. -/
def newBlockId (memories : List ExtractedMemory) (content : String) : String :=
  match memories.find? fun m => m.content == content with
  | some m => m.blockId
  | none => ""

def invalidated (cfg : Config) (now newId : String) (c : ContradictionPair) (m : Metadata) : Metadata :=
  setKey "auto_revoke_eligible" (.bool (c.confidence < cfg.autoRevokeConfidenceThreshold))
    (setKey "invalidation_triggered_by" (.str "llm_auto")
      (setKey "invalidation_confidence" (.float c.confidence)
        (setKey "invalidation_reason" (.str c.reason)
          (setKey "invalidated_at" (.str now)
            (setKey "invalidated_by_block_id" (.str newId) (setKey "status" (.str "invalidated") m))))))

/-- The second loop of `WriteWithOperationLog`, from contradiction `j` on. -/
def invalidateOld (cfg : Config) (env : Env) (memories : List ExtractedMemory) :
    Nat → List ContradictionPair → Store → Except Store Store
  | _, [], t => .ok t
  | j, c :: rest, t =>
    match (if env.succeeds (.getOld j) then getMemoryBlock c.oldBlockId t else none) with
    -- the old block vanished: the new memory is already persisted
    | none => invalidateOld cfg env memories (j + 1) rest t
    | some old =>
      if env.succeeds (.updateOld j) then
        invalidateOld cfg env memories (j + 1) rest
          (updateMemoryBlock old.blockId
            (invalidated cfg env.now (newBlockId memories c.newContent) c old.metadata) t)
      else .error t

/-- `WriteWithOperationLog`: the store it leaves, as an error when it returns one. -/
def writeWithOperationLog (cfg : Config) (env : Env) (userId : String) (memories : List ExtractedMemory)
    (contradictions : List ContradictionPair) (t : Store) : Except Store Store :=
  match writeMemories cfg env userId 0 memories t with
  | .error t' => .error t'
  | .ok (memories', t') => invalidateOld cfg env memories' 0 contradictions t'

def storeOf : Except Store Store → Store
  | .ok t => t
  | .error t => t

/-! ## A window of turns -/

structure InteractionLog where
  id : String
  userId : String
  sessionId : String
  role : String
  content : String

def buildWindowText (cfg : Config) (window : List InteractionLog) : String :=
  let maxTurns := (max 1 cfg.windowSizeDefault).toNat
  (window.drop (window.length - maxTurns)).foldl (fun out turn =>
    out ++ (if turn.role = "" then "" else turn.role ++ ": ") ++ turn.content ++ "\n") ""

inductive Mem02ErrorCode
  | kLlmDisabled
  | kExtractInvalidOutput
  | kExtractLlmTimeout
  | kExtractBudgetExceeded

/-- What a run returns, the store it leaves and what it has asked. -/
structure Outcome where
  error : Option Mem02ErrorCode
  store : Store
  prompts : List Prompt

def errorOf : StatusCode → Mem02ErrorCode
  | .kUnavailable => .kExtractLlmTimeout
  | .kPermissionDenied => .kExtractBudgetExceeded
  | .other => .kExtractInvalidOutput

def stamp (last : InteractionLog) (m : ExtractedMemory) : ExtractedMemory :=
  { m with sourceInteractionId := last.id, sourceSessionId := last.sessionId }

/-- `ExtractFromWindow`; the model gives `replies 0` to the extraction and the others to the judgments. -/
def extractFromWindow (cfg : Config) (env : Env) (window : List InteractionLog) (replies : Nat → Reply) (t : Store) :
    Outcome :=
  if !cfg.enabled then ⟨some .kLlmDisabled, t, []⟩
  else
    match window.getLast? with
    | none => ⟨some .kExtractInvalidOutput, t, []⟩
    | some last =>
      let prompt := Prompt.extract (buildWindowText cfg window)
      match replies 0 with
      | .failed code => ⟨some (errorOf code), t, [prompt]⟩
      | .content whole bracketed _ =>
        match parseExtractionJson whole bracketed with
        | none => ⟨some .kExtractInvalidOutput, t, [prompt]⟩
        | some parsed =>
          let memories := parsed.map (stamp last)
          let (contradictions, prompts) := findContradictions cfg env replies t 0 1 memories
          match writeWithOperationLog cfg env last.userId memories contradictions t with
          | .error t' => ⟨some .kExtractInvalidOutput, t', prompt :: prompts⟩
          | .ok t' => ⟨none, t', prompt :: prompts⟩

end MemoryExtractor

end Cortrix.Memory
