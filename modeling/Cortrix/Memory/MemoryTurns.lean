import Cortrix.Query.PostFilter

/-!
# A turn of a conversation, from `MemoryWriter` to `MemorySearcher`
-/

namespace Cortrix.Memory
open Lib Metadata Query Query.PostFilter Store.Documents

namespace MemoryTurns

structure MemoryWriteRequest where
  sessionId : String
  userId : String
  queryText : String
  responseText : String
  queryType : String := ""
  resultSource : String := ""
  ttlSeconds : Int := 0

/-- The task of a turn: its text goes in `content_hash`, its identity in `metadata_json`. -/
structure SpcTask where
  docId : String
  contentHash : String
  metadata : Metadata

structure Turn where
  request : MemoryWriteRequest
  interactionId : String
  task : SpcTask
  blockId : Option UInt64 := none

structure State where
  sessions : List String
  rows : Rows := {}
  turns : List Turn := []

/-! ## Writing -/

/-- What a write draws and finds. -/
structure WriteEnv where
  interactionId : String
  newDocId : String
  createdAt : String := ""
  turnNumber : Int := 0
  queriedAt : String := ""
  textToSqlTtlSeconds : Int := 0
  inserted : Bool := true
  created : Bool := true

def buildMemoryContent (queryText responseText : String) : String := queryText ++ "\n---\n" ++ responseText

def buildMemoryMetadata (req : MemoryWriteRequest) (env : WriteEnv) (ttlSeconds : Int) : Metadata :=
  [("interaction_id", .str env.interactionId), ("turn", .int env.turnNumber), ("query_type", .str req.queryType),
      ("result_source", .str req.resultSource), ("session_id", .str req.sessionId), ("user_id", .str req.userId)] ++
    if req.resultSource = "text_to_sql" then [("ttl_seconds", .int ttlSeconds), ("queried_at", .str env.queriedAt)]
    else []

def newest (docs : List CortrixDoc) : Option CortrixDoc :=
  docs.foldl (fun best d =>
    match best with
    | none => some d
    | some b => if older b.toDoc d.toDoc then some d else some b) none

def sessionDoc (sessionId : String) (env : WriteEnv) : CortrixDoc where
  docId := env.newDocId
  sourceType := "memory_session"
  sourcePath := sessionId
  status := .ready
  errorMessage := ""
  createdAt := env.createdAt
  deletedAt := none
  deletedFromStatus := none

/-- `FindOrCreateSessionDoc`: the id, `""` when the document cannot be created. -/
def findOrCreateSessionDoc (sessionId : String) (env : WriteEnv) (r : Rows) : String × Rows :=
  match newest (r.docs.filter fun d =>
      d.sourceType == "memory_session" && d.sourcePath == sessionId && d.status != .deleted) with
  | some d => (d.docId, r)
  | none =>
    match (if env.created && env.newDocId != "" then insertRow (·.docId) (sessionDoc sessionId env) r.docs else none) with
    | some docs => (env.newDocId, { r with docs := docs })
    | none => ("", r)

/-- `Write`; `none` when it does not return Ok. -/
def write (s : State) (req : MemoryWriteRequest) (env : WriteEnv) : Option State :=
  if req.sessionId = "" ∨ req.queryText = "" ∨ req.responseText = "" then none
  else if req.sessionId ∉ s.sessions ∨ env.inserted = false then none
  else
    let (docId, rows) := findOrCreateSessionDoc req.sessionId env s.rows
    let ttl := if req.ttlSeconds = 0 ∧ req.resultSource = "text_to_sql" then env.textToSqlTtlSeconds else req.ttlSeconds
    let task := ⟨docId, buildMemoryContent req.queryText req.responseText, buildMemoryMetadata req env ttl⟩
    some { s with rows := rows, turns := s.turns ++ [⟨req, env.interactionId, task, none⟩] }

/-! ## Processing -/

/-- `Assemble`: the metadata goes into the binary data of the block, not into its column. -/
def assemble (docId text : String) (_metadata : Metadata) (blockId : UInt64) : CortrixBlock where
  blockId := blockId
  docId := docId
  blockType := kBlockMemory
  contentText := cText text

/-- The row of a document with another status; a deleted one keeps its own. -/
def setStatus (docId : String) (status : DocStatus) (docs : List CortrixDoc) : List CortrixDoc :=
  updateWhere (fun d => d.docId == docId && d.status != .deleted) (fun d => { d with status := status }) docs

/-- A worker finishes the task of turn `i`: the document is there and live, and the block is inserted. -/
def processTurn (s : State) (i : Nat) (blockId : UInt64) : Option State :=
  s.turns[i]?.bind fun turn =>
    if turn.blockId.isSome then none
    else
      match s.rows.docGet turn.task.docId with
      | none => none
      | some d =>
        if d.status = .deleted then none
        else
          (insertRow CortrixBlock.blockId
            (assemble turn.task.docId turn.task.contentHash turn.task.metadata blockId) s.rows.blocks).map fun blocks =>
            { s with
              rows := ⟨setStatus turn.task.docId .ready s.rows.docs, blocks⟩
              turns := s.turns.set i { turn with blockId := some blockId } }

/-! ## Searching -/

inductive MemoryScope
  | kSession
  | kUser
  deriving DecidableEq

structure MemorySearchRequest where
  query : String
  namespaceName : String
  scope : MemoryScope := .kUser
  sessionId : String := ""
  userId : String
  topK : Int := 10
  includeExpired : Bool := false

def kMaxUserIdLen : Nat := 128

def isValidUserIdFormat (userId : String) : Bool :=
  userId.utf8ByteSize ≤ kMaxUserIdLen && userId.toList.all fun c => 0x20 ≤ c.toNat && c.toNat ≤ 0x7E

def MemorySearchRequest.validate (req : MemorySearchRequest) : Bool :=
  req.query != "" && req.namespaceName != "" && req.userId != "" && isValidUserIdFormat req.userId &&
    !(req.scope == .kSession && req.sessionId == "") && decide (1 ≤ req.topK) && decide (req.topK ≤ 100)

structure MemoryCandidate where
  content : String
  memoryType : String
  status : String
  rawScore : Rat
  createdAt : Int

/-- A candidate by its place, with what the scorer makes of it. -/
structure ScoredMemory where
  index : Nat
  decayFactor : Rat
  finalScore : Rat

/-- The clock, the parsers of times and the scorer, when one is injected. -/
structure SearchEnv where
  now : Int := 0
  utcOf : String → Option Int := fun _ => none
  createdAtOf : String → Int := fun _ => 0
  scorer : Option (List MemoryCandidate → List ScoredMemory) := none

structure MemorySearchResultItem where
  interactionId : String
  sessionId : String
  queryText : String := ""
  responseText : String := ""
  queryType : String
  content : String := ""
  memoryType : String
  blockId : String
  score : Rat
  decayFactor : Rat := 1
  finalScore : Rat := 0
  expired : Bool := false
  createdAt : String
  metadata : Metadata
  source : UInt64

def isExpired (env : SearchEnv) (m : Metadata) : Bool :=
  let ttl : Int :=
    match getKey "ttl_seconds" m with
    | some (.int n) => n
    | some (.float q) => q.floor
    | _ => 0
  if ttl ≤ 0 then false
  else
    match getKey "queried_at" m with
    | some (.str s) =>
      match env.utcOf s with
      | some created => decide (created + ttl < env.now)
      | none => false
    | _ => false

/-- `MatchScope`: always the user, then the session. -/
def matchScope (m : Metadata) (req : MemorySearchRequest) : Bool :=
  match getKey "user_id" m with
  | some (.str u) =>
    if u ≠ req.userId then false
    else
      match req.scope with
      | .kSession =>
        match getKey "session_id" m with
        | some (.str sid) => sid == req.sessionId
        | _ => false
      | .kUser => true
  | _ => false

/-- The text before and behind the first separator line. -/
def splitTurn : List Char → Option (List Char × List Char)
  | [] => none
  | c :: rest =>
    if "\n---\n".toList.isPrefixOf (c :: rest) then some ([], (c :: rest).drop 5)
    else (splitTurn rest).map fun (q, a) => (c :: q, a)

def toMemoryResult (item : PostFilter.ResultItem) : MemorySearchResultItem :=
  let m := item.metadata
  let base : MemorySearchResultItem :=
    { interactionId := jsonStr m "interaction_id", sessionId := jsonStr m "session_id"
      queryType := jsonStr m "query_type", memoryType := jsonStr m "memory_type", blockId := jsonStr m "block_id"
      score := item.score, createdAt := jsonStr m "created_at", metadata := m, source := item.blockId }
  if jsonStr m "interaction_id" ≠ "" then
    match splitTurn item.chunkText.toList with
    | some (q, a) => { base with queryText := String.ofList q, responseText := String.ofList a }
    | none => { base with queryText := item.chunkText }
  else { base with content := item.chunkText }

def extractStatus (m : Metadata) : String :=
  match getKey "status" m with
  | some (.str s) => s
  | _ => "active"

/-- An item that survives the scope and the time to live. -/
def keep (env : SearchEnv) (req : MemorySearchRequest) (item : PostFilter.ResultItem) : Option MemorySearchResultItem :=
  if !matchScope item.metadata req then none
  else
    let expired := isExpired env item.metadata
    if expired && !req.includeExpired then none
    else
      let result := { toMemoryResult item with expired := expired, finalScore := item.score }
      if result.interactionId = "" ∧ result.content = "" then none else some result

def candidateOf (env : SearchEnv) (r : MemorySearchResultItem) : MemoryCandidate :=
  ⟨r.content, r.memoryType, extractStatus r.metadata, r.score, env.createdAtOf r.createdAt⟩

def kept (env : SearchEnv) (req : MemorySearchRequest) (candidates : List ScoredBlock) (r : Rows) :
    List MemorySearchResultItem :=
  (apply r { blockTypes := ["MEMORY"] } (req.topK * 2) candidates).filterMap (keep env req)

def search (env : SearchEnv) (req : MemorySearchRequest) (candidates : List ScoredBlock) (r : Rows) :
    List MemorySearchResultItem :=
  if !req.validate then []
  else
    let found := kept env req candidates r
    match env.scorer with
    | some scorer =>
      (scorer (found.map (candidateOf env))).filterMap fun sm =>
        (found[sm.index]?).map fun item => { item with decayFactor := sm.decayFactor, finalScore := sm.finalScore }
    | none => found.take req.topK.toNat

/-! ## Runs -/

inductive Act
  | write (req : MemoryWriteRequest) (env : WriteEnv)
  | process (i : Nat) (blockId : UInt64)
  /-- Another document, and a block of one. -/
  | addDoc (d : CortrixDoc)
  | addBlock (b : CortrixBlock)
  /-- The metadata of a block of another document. -/
  | setMetadata (blockId : UInt64) (m : Metadata)
  /-- Any document, deleted or processed again. -/
  | setStatus (docId : String) (status : DocStatus)

def noSession (r : Rows) (docId : String) : Bool := (r.docGet docId).any fun d => d.sourceType != "memory_session"

def step (s : State) : Act → Option State
  | .write req env => MemoryTurns.write s req env
  | .process i blockId => processTurn s i blockId
  | .addDoc d =>
    if d.sourceType = "memory_session" ∨ d.docId = "" then none
    else (insertRow (·.docId) d s.rows.docs).map fun docs => { s with rows := { s.rows with docs := docs } }
  | .addBlock b =>
    if noSession s.rows b.docId then
      (insertRow CortrixBlock.blockId b s.rows.blocks).map fun blocks => { s with rows := { s.rows with blocks := blocks } }
    else none
  | .setMetadata blockId m =>
    if (s.rows.blockGet blockId).any fun b => noSession s.rows b.docId then
      some { s with rows := { s.rows with
        blocks := updateWhere (fun b => b.blockId == blockId) (fun b => { b with metadata := some m }) s.rows.blocks } }
    else none
  | .setStatus docId status => some { s with rows := { s.rows with docs := MemoryTurns.setStatus docId status s.rows.docs } }

def init (sessions : List String) : State := { sessions := sessions }

/-! ## What is promised -/

/-- A search of the turn's user, in the session or over all of them, to which the turn's block is a candidate. -/
def OwnSearch (turn : Turn) (b : UInt64) (req : MemorySearchRequest) (candidates : List ScoredBlock) : Prop :=
  req.validate = true ∧ req.userId = turn.request.userId ∧
    (req.scope = .kUser ∨ req.sessionId = turn.request.sessionId) ∧ ∃ sb ∈ candidates, sb.blockId = b

/-- The turn is out of the search: expired, or beyond the number of results. -/
def OutOfSearch (env : SearchEnv) (s : State) (turn : Turn) (req : MemorySearchRequest) (candidates : List ScoredBlock) :
    Prop :=
  isExpired env turn.task.metadata = true ∧ req.includeExpired = false ∨
    req.topK ≤ (search env req candidates s.rows).length ∨
      req.topK * 2 ≤ (apply s.rows { blockTypes := ["MEMORY"] } (req.topK * 2) candidates).length

/-- The turn is found by its own user as it was said, and by nobody else. -/
def Remembered (s : State) (turn : Turn) (b : UInt64) : Prop :=
  (∀ env req candidates, OwnSearch turn b req candidates → OutOfSearch env s turn req candidates ∨
    ∃ item ∈ search env req candidates s.rows, item.source = b ∧ item.queryText = turn.request.queryText ∧
      item.responseText = turn.request.responseText ∧ item.interactionId = turn.interactionId) ∧
    ∀ env req candidates, req.userId ≠ turn.request.userId →
      ∀ item ∈ search env req candidates s.rows, item.source ≠ b

def Searchable (userId : String) : Prop := userId ≠ "" ∧ isValidUserIdFormat userId = true

instance (userId : String) : Decidable (Searchable userId) := inferInstanceAs (Decidable (_ ∧ _))

/-! ## The rows of the sessions -/

variable {r r' : Rows} {docId : String} {b : UInt64}

def SessionDoc (r : Rows) (docId : String) : Prop := ∃ d, r.docGet docId = some d ∧ d.sourceType = "memory_session"

def SessionBlock (r : Rows) (b : UInt64) : Prop :=
  ∃ row, r.blockGet b = some row ∧ row.metadata = none ∧ SessionDoc r row.docId

/-- Documents have ids of their own, and sessions no metadata. -/
structure Plain (docs : List CortrixDoc) : Prop where
  keyed : Keyed (fun d : CortrixDoc => d.docId) docs
  named : ∀ d ∈ docs, d.docId ≠ ""
  bare : ∀ d ∈ docs, d.sourceType = "memory_session" → d.metadata = none

/-- The sessions and their blocks stay. -/
structure Keeps (r r' : Rows) : Prop where
  plain : Plain r.docs → Plain r'.docs
  doc : ∀ {docId}, SessionDoc r docId → SessionDoc r' docId
  block : ∀ {b}, SessionBlock r b → SessionBlock r' b

theorem Keeps.refl (r : Rows) : Keeps r r := ⟨id, id, id⟩

theorem Keeps.trans {r'' : Rows} (h : Keeps r r') (h' : Keeps r' r'') : Keeps r r'' :=
  ⟨h'.plain ∘ h.plain, h'.doc ∘ h.doc, h'.block ∘ h.block⟩

theorem keeps_addDoc {d : CortrixDoc} {docs : List CortrixDoc} (hname : d.docId ≠ "")
    (hbare : d.sourceType = "memory_session" → d.metadata = none)
    (hins : insertRow (fun d : CortrixDoc => d.docId) d r.docs = some docs) : Keeps r { r with docs := docs } := by
  have hdoc : ∀ {docId}, SessionDoc r docId → SessionDoc { r with docs := docs } docId := by
    rintro docId ⟨d', hd', hs⟩
    obtain ⟨-, rfl⟩ := insertRow_eq_some.mp hins
    exact ⟨d', lookup_append_of_some hd' [d], hs⟩
  refine ⟨fun h => ⟨h.keyed.insertRow hins, ?_, ?_⟩, hdoc, ?_⟩
  · obtain ⟨-, rfl⟩ := insertRow_eq_some.mp hins
    intro x hx
    rcases List.mem_append.mp hx with hx | hx
    · exact h.named x hx
    · rwa [List.mem_singleton.mp hx]
  · obtain ⟨-, rfl⟩ := insertRow_eq_some.mp hins
    intro x hx
    rcases List.mem_append.mp hx with hx | hx
    · exact h.bare x hx
    · rwa [List.mem_singleton.mp hx]
  · rintro b ⟨row, hrow, hmeta, hs⟩
    exact ⟨row, hrow, hmeta, hdoc hs⟩

theorem keeps_addBlock {x : CortrixBlock} {blocks : List CortrixBlock}
    (hins : insertRow CortrixBlock.blockId x r.blocks = some blocks) : Keeps r { r with blocks := blocks } := by
  obtain ⟨-, rfl⟩ := insertRow_eq_some.mp hins
  refine ⟨id, id, ?_⟩
  rintro b ⟨row, hrow, hmeta, hs⟩
  exact ⟨row, lookup_append_of_some hrow [x], hmeta, hs⟩

theorem docGet_setStatus (r : Rows) (status : DocStatus) (docId k : String) :
    Rows.docGet { r with docs := setStatus docId status r.docs } k =
      (r.docGet k).map fun d => if d.docId == docId && d.status != .deleted then { d with status := status } else d := by
  unfold Rows.docGet setStatus
  rw [lookup_updateWhere_of]
  intro d _
  rfl

theorem keeps_setStatus (r : Rows) (docId : String) (status : DocStatus) :
    Keeps r { r with docs := setStatus docId status r.docs } := by
  have hdoc : ∀ {k}, SessionDoc r k → SessionDoc { r with docs := setStatus docId status r.docs } k := by
    rintro k ⟨d, hd, hs⟩
    refine ⟨_, by rw [docGet_setStatus, hd, Option.map_some], ?_⟩
    split <;> exact hs
  refine ⟨fun h => ⟨h.keyed.updateWhere fun _ _ => rfl, ?_, ?_⟩, hdoc, ?_⟩
  · intro x hx
    obtain ⟨d, hd, rfl⟩ := mem_updateWhere.mp hx
    split <;> exact h.named d hd
  · intro x hx
    obtain ⟨d, hd, rfl⟩ := mem_updateWhere.mp hx
    split <;> exact h.bare d hd
  · rintro b ⟨row, hrow, hmeta, hs⟩
    exact ⟨row, hrow, hmeta, hdoc hs⟩

theorem keeps_setMetadata {m : Metadata} (hno : (r.blockGet b).any (fun x => noSession r x.docId) = true) :
    Keeps r { r with blocks := updateWhere (fun x => x.blockId == b) (fun x => { x with metadata := some m }) r.blocks } := by
  refine ⟨id, id, ?_⟩
  rintro b' ⟨row, hrow, hmeta, d, hd, hs⟩
  refine ⟨row, ?_, hmeta, d, hd, hs⟩
  have hne : ¬ row.blockId = b := by
    rintro rfl
    rw [(lookup_eq_some hrow).2, hrow] at hno
    simp [noSession, hd, hs] at hno
  unfold Rows.blockGet at hrow ⊢
  have hkey : ∀ x : CortrixBlock, (x.blockId == b) = true → ({ x with metadata := some m } : CortrixBlock).blockId = x.blockId :=
    fun _ _ => rfl
  rw [lookup_updateWhere_of hkey, hrow, Option.map_some, if_neg (by simpa using hne)]

/-! ## The document of a session -/

theorem mem_of_newest {docs : List CortrixDoc} {d : CortrixDoc} (h : newest docs = some d) : d ∈ docs := by
  have hfold : ∀ (l : List CortrixDoc) (best : Option CortrixDoc),
      l.foldl (fun best d =>
        match best with
        | none => some d
        | some b => if older b.toDoc d.toDoc then some d else some b) best = some d → d ∈ l ∨ best = some d := by
    intro l
    induction l with
    | nil => exact fun best hb => .inr hb
    | cons x l ih =>
      intro best hb
      rcases ih _ hb with hmem | heq
      · exact .inl (List.mem_cons_of_mem _ hmem)
      · cases best with
        | none => exact .inl (Option.some.inj heq ▸ List.mem_cons_self)
        | some best =>
          dsimp only at heq
          split at heq
          · exact .inl (Option.some.inj heq ▸ List.mem_cons_self)
          · exact .inr heq
  rcases hfold docs none h with hmem | hnone
  · exact hmem
  · cases hnone

theorem findOrCreateSessionDoc_spec {sessionId : String} {env : WriteEnv} (h : Plain r.docs) :
    Keeps r (findOrCreateSessionDoc sessionId env r).2 ∧
      ((findOrCreateSessionDoc sessionId env r).1 = "" ∨
        SessionDoc (findOrCreateSessionDoc sessionId env r).2 (findOrCreateSessionDoc sessionId env r).1) := by
  unfold findOrCreateSessionDoc
  split
  · rename_i d hd
    obtain ⟨hmem, hcond⟩ := List.mem_filter.mp (mem_of_newest hd)
    simp only [Bool.and_eq_true, beq_iff_eq] at hcond
    exact ⟨Keeps.refl r, .inr ⟨d, h.keyed.lookup_of_mem hmem, hcond.1.1⟩⟩
  · split
    · rename_i docs hdocs
      split at hdocs
      · rename_i hnew
        simp only [Bool.and_eq_true, bne_iff_ne] at hnew
        refine ⟨keeps_addDoc hnew.2 (fun _ => rfl) hdocs, .inr ⟨sessionDoc sessionId env, ?_, rfl⟩⟩
        have hkeyed := h.keyed.insertRow hdocs
        obtain ⟨-, rfl⟩ := insertRow_eq_some.mp hdocs
        exact hkeyed.lookup_of_mem (List.mem_append_right _ (List.mem_singleton_self _))
      · cases hdocs
    · exact ⟨Keeps.refl r, .inl rfl⟩

/-! ## Runs -/

/-- Sessions have no metadata, and the block of a turn is one of a session. -/
structure Inv (s : State) : Prop where
  plain : Plain s.rows.docs
  task : ∀ turn ∈ s.turns, turn.task.docId = "" ∨ SessionDoc s.rows turn.task.docId
  stored : ∀ turn ∈ s.turns, ∀ b, turn.blockId = some b → SessionBlock s.rows b

theorem Inv.of_keeps {s s' : State} (hI : Inv s) (hk : Keeps s.rows s'.rows) (hturns : s'.turns = s.turns) : Inv s' where
  plain := hk.plain hI.plain
  task turn hmem := (hI.task turn (hturns ▸ hmem)).imp_right hk.doc
  stored turn hmem b hb := hk.block (hI.stored turn (hturns ▸ hmem) b hb)

theorem inv_write {s s' : State} {req : MemoryWriteRequest} {env : WriteEnv} (hI : Inv s)
    (h : write s req env = some s') : Inv s' := by
  unfold write at h
  split at h
  · cases h
  · split at h
    · cases h
    · obtain ⟨hk, hdoc⟩ := @findOrCreateSessionDoc_spec _ req.sessionId env hI.plain
      cases h
      refine ⟨hk.plain hI.plain, ?_, ?_⟩
      · intro turn hmem
        rcases List.mem_append.mp hmem with hmem | hmem
        · exact (hI.task turn hmem).imp_right hk.doc
        · rw [List.mem_singleton.mp hmem]
          exact hdoc
      · intro turn hmem b hb
        rcases List.mem_append.mp hmem with hmem | hmem
        · exact hk.block (hI.stored turn hmem b hb)
        · rw [List.mem_singleton.mp hmem] at hb
          cases hb

theorem inv_processTurn {s s' : State} {i : Nat} (hI : Inv s) (h : processTurn s i b = some s') : Inv s' := by
  unfold processTurn at h
  obtain ⟨turn, hturn, h⟩ := Option.bind_eq_some_iff.mp h
  split at h
  · cases h
  · split at h
    · cases h
    · rename_i d hd
      split at h
      · cases h
      · obtain ⟨blocks, hins, rfl⟩ := Option.map_eq_some_iff.mp h
        have hmem := List.mem_of_getElem? hturn
        have hnamed : turn.task.docId ≠ "" := by
          obtain ⟨hd, hid⟩ := lookup_eq_some hd
          exact hid ▸ hI.plain.named d hd
        have hk := (keeps_addBlock hins).trans (keeps_setStatus { s.rows with blocks := blocks } turn.task.docId .ready)
        have hnew := hk.doc ((hI.task turn hmem).resolve_left hnamed)
        refine ⟨hk.plain hI.plain, ?_, ?_⟩
        · intro x hx
          rcases List.mem_or_eq_of_mem_set hx with hx | rfl
          · exact (hI.task x hx).imp_right hk.doc
          · exact .inr hnew
        · intro x hx b' hb'
          rcases List.mem_or_eq_of_mem_set hx with hx | rfl
          · exact hk.block (hI.stored x hx b' hb')
          · cases hb'
            obtain ⟨hfree, rfl⟩ := insertRow_eq_some.mp hins
            refine ⟨assemble turn.task.docId turn.task.contentHash turn.task.metadata b, ?_, rfl, hnew⟩
            unfold Rows.blockGet lookup
            have hnone : s.rows.blocks.find? (fun x => x.blockId == b) = none := lookup_eq_none.mpr hfree
            rw [List.find?_append, hnone, Option.none_or]
            exact List.find?_cons_of_pos (by simp [assemble])

theorem inv_step {s s' : State} {a : Act} (hI : Inv s) (h : step s a = some s') : Inv s' := by
  cases a with
  | write req env => exact inv_write hI h
  | process i blockId => exact inv_processTurn hI h
  | addDoc d =>
    simp only [step] at h
    split at h
    · cases h
    · rename_i hd
      rw [not_or] at hd
      obtain ⟨docs, hins, rfl⟩ := Option.map_eq_some_iff.mp h
      exact hI.of_keeps (keeps_addDoc hd.2 (fun hs => absurd hs hd.1) hins) rfl
  | addBlock x =>
    simp only [step] at h
    split at h
    · obtain ⟨blocks, hins, rfl⟩ := Option.map_eq_some_iff.mp h
      exact hI.of_keeps (keeps_addBlock hins) rfl
    · cases h
  | setMetadata blockId m =>
    simp only [step] at h
    split at h
    · rename_i hno
      cases h
      exact hI.of_keeps (keeps_setMetadata hno) rfl
    · cases h
  | setStatus docId status =>
    cases h
    exact hI.of_keeps (keeps_setStatus s.rows docId status) rfl

theorem inv_init (sessions : List String) : Inv (init sessions) := by
  refine ⟨⟨Keyed.nil, ?_, ?_⟩, ?_, ?_⟩ <;> intro x hx <;> cases hx

theorem inv_run {sessions : List String} {as : List Act} {s : State} (h : run step (init sessions) as = some s) : Inv s :=
  run_inv (fun hI _ hs => inv_step hI hs) (inv_init sessions) (along_true _ as) h

/-! ## Searches -/

variable {env : SearchEnv} {req : MemorySearchRequest} {candidates : List ScoredBlock}

theorem keep_eq_some {item : PostFilter.ResultItem} {result : MemorySearchResultItem} (h : keep env req item = some result) :
    result.source = item.blockId ∧ matchScope item.metadata req = true := by
  unfold keep at h
  split at h
  · cases h
  · rename_i hscope
    dsimp only at h
    split at h
    · cases h
    · split at h
      · cases h
      · cases h
        refine ⟨?_, by simpa using hscope⟩
        unfold toMemoryResult
        dsimp only
        split
        · split <;> rfl
        · rfl

theorem mem_search {result : MemorySearchResultItem} (h : result ∈ search env req candidates r) :
    ∃ k ∈ kept env req candidates r, k.source = result.source := by
  unfold search at h
  split at h
  · cases h
  · split at h
    · obtain ⟨sm, -, hsm⟩ := List.mem_filterMap.mp h
      obtain ⟨k, hk, rfl⟩ := Option.map_eq_some_iff.mp hsm
      exact ⟨k, List.mem_of_getElem? hk, rfl⟩
    · exact ⟨result, List.mem_of_mem_take h, rfl⟩

theorem search_misses (hplain : Plain r.docs) (hb : SessionBlock r b) :
    ∀ result ∈ search env req candidates r, result.source ≠ b := by
  intro result hresult hsource
  obtain ⟨k, hk, hks⟩ := mem_search hresult
  obtain ⟨item, hitem, hkeep⟩ := List.mem_filterMap.mp hk
  obtain ⟨hsrc, hscope⟩ := keep_eq_some hkeep
  obtain ⟨sb, -, hres⟩ := mem_applyFrom hitem
  obtain ⟨row, d, hrow, hd, -, -, hid, -, -, hmeta⟩ := resultItem_eq_some hres
  obtain ⟨row', hrow', hbare, d', hd', hs⟩ := hb
  have hsame : sb.blockId = b := by rw [← hid, ← hsrc, hks, hsource]
  rw [hsame, hrow'] at hrow
  cases hrow
  rw [hd'] at hd
  obtain rfl := Option.some.inj hd
  have hnil : item.metadata = [] := by
    rw [hmeta, itemMetadata, hbare, hplain.bare d' (lookup_eq_some hd').1 hs]
    rfl
  rw [hnil] at hscope
  cases hscope

theorem search_one (hplain : Plain r.docs) (hb : SessionBlock r b) : search env req [⟨b, 0⟩] r = [] := by
  rw [List.eq_nil_iff_forall_not_mem]
  intro result hresult
  refine search_misses hplain hb result hresult ?_
  obtain ⟨k, hk, hks⟩ := mem_search hresult
  obtain ⟨item, hitem, hkeep⟩ := List.mem_filterMap.mp hk
  obtain ⟨sb, hsb, hres⟩ := mem_applyFrom hitem
  obtain ⟨-, -, -, -, -, -, hid, -⟩ := resultItem_eq_some hres
  rw [← hks, (keep_eq_some hkeep).1, hid, List.mem_singleton.mp hsb]

/-- The search of a turn's user, over all sessions. -/
def ownRequest (userId : String) : MemorySearchRequest where
  query := "q"
  namespaceName := "n"
  userId := userId
  includeExpired := true

theorem validate_ownRequest {userId : String} (h : Searchable userId) : (ownRequest userId).validate = true := by
  simp [MemorySearchRequest.validate, ownRequest, h.1, h.2]

theorem searchable_of_validate (h : req.validate = true) : Searchable req.userId := by
  simp only [MemorySearchRequest.validate, Bool.and_eq_true, bne_iff_ne] at h
  exact ⟨h.1.1.1.1.2, h.1.1.1.2⟩

theorem not_remembered {s : State} {turn : Turn} (hI : Inv s) (hblock : SessionBlock s.rows b)
    (huser : Searchable turn.request.userId) : ¬ Remembered s turn b := by
  rintro ⟨hfound, -⟩
  rcases hfound {} (ownRequest turn.request.userId) [⟨b, 0⟩]
    ⟨validate_ownRequest huser, rfl, .inl rfl, ⟨b, 0⟩, List.mem_singleton_self _, rfl⟩ with hout | ⟨item, hitem, hsource, -⟩
  · rcases hout with ⟨-, hexp⟩ | hk | hk
    · cases hexp
    · rw [search_one hI.plain hblock] at hk
      simp [ownRequest] at hk
    · have hle : (apply s.rows { blockTypes := ["MEMORY"] } ((ownRequest turn.request.userId).topK * 2)
          [⟨b, 0⟩]).length ≤ 1 := length_apply_le
      simp only [ownRequest] at hk hle
      omega
  · exact search_misses hI.plain hblock item hitem hsource

/-- A turn is remembered exactly when no search accepts its user. -/
theorem turn_remembered_iff {sessions : List String} {as : List Act} {s : State} {turn : Turn}
    (hrun : run step (init sessions) as = some s) (hturn : turn ∈ s.turns) (hb : turn.blockId = some b) :
    Remembered s turn b ↔ ¬ Searchable turn.request.userId := by
  have hI := inv_run hrun
  have hblock := hI.stored turn hturn b hb
  constructor
  · exact fun hrem huser => not_remembered hI hblock huser hrem
  · intro huser
    refine ⟨fun env req candidates hown => ?_, fun env req candidates _ => search_misses hI.plain hblock⟩
    obtain ⟨hvalid, hid, -⟩ := hown
    exact absurd (hid ▸ searchable_of_validate hvalid) huser

def aliceTurn : Turn where
  request := ⟨"s", "alice", "q", "a", "", "", 0⟩
  interactionId := "i1"
  task := ⟨"d1", "q\n---\na", buildMemoryMetadata ⟨"s", "alice", "q", "a", "", "", 0⟩ { interactionId := "i1", newDocId := "d1" } 0⟩
  blockId := some 7

def aliceState : State where
  sessions := ["s"]
  rows := ⟨[sessionDoc "s" { interactionId := "i1", newDocId := "d1" }], [assemble "d1" "q\n---\na" aliceTurn.task.metadata 7]⟩
  turns := [aliceTurn]

def aliceRun : List Act :=
  [.write ⟨"s", "alice", "q", "a", "", "", 0⟩ { interactionId := "i1", newDocId := "d1" }, .process 0 7]

theorem run_aliceRun : run step (init ["s"]) aliceRun = some aliceState := rfl

theorem aliceTurn_remembered_iff : Remembered aliceState aliceTurn 7 ↔ ¬ Searchable "alice" :=
  turn_remembered_iff run_aliceRun (List.mem_singleton_self _) rfl

/-- The user of a finished turn does not find it. -/
theorem aliceTurn_not_remembered :
    run step (init ["s"]) aliceRun = some aliceState ∧ aliceTurn ∈ aliceState.turns ∧ aliceTurn.blockId = some 7 ∧
      ¬ Remembered aliceState aliceTurn 7 := by
  have hI := inv_run run_aliceRun
  have hblock := hI.stored aliceTurn (List.mem_singleton_self _) 7 rfl
  exact ⟨run_aliceRun, List.mem_singleton_self _, rfl, not_remembered hI hblock (by decide)⟩

end MemoryTurns

end Cortrix.Memory
