import Cortrix.Lib.Parties
import Cortrix.Lib.Run
import Cortrix.Lib.Table

/-!
# Creating, editing and deleting a memory

`MemoryTransparency` over the store of the memory blocks, under any threads: a read, an insert and an update of the
store are one step each, and each may fail.
-/

namespace Cortrix.Memory
open Lib

namespace MemoryTransparency

/-- A value of `metadata_json`, as far as it is read. -/
inductive JsonValue
  | int (n : Int)
  /-- A number with a fraction, by its integer part. -/
  | float (trunc : Int)
  | str (s : String)
  | other

abbrev Metadata := List (String × JsonValue)

structure MemoryBlockRecord where
  blockId : String
  nsId : String := ""
  userId : String := ""
  content : String := ""
  metadata : Metadata := []

/-! ## Metadata -/

def getKey (key : String) (m : Metadata) : Option JsonValue := (lookup Prod.fst key m).map Prod.snd

def setKey (key : String) (value : JsonValue) (m : Metadata) : Metadata := upsertRow Prod.fst (key, value) m

def readString (m : Metadata) (key : String) : String :=
  match getKey key m with
  | some (.str s) => s
  | _ => ""

def readOptString (m : Metadata) (key : String) : Option String :=
  match getKey key m with
  | some (.str s) => if s.isEmpty then none else some s
  | _ => none

/-- `ReadTimestampMs`; `epochOf` is the time an ISO 8601 text tells. -/
def readTimestampMs (epochOf : String → Option Int) (m : Metadata) (key : String) : Option Int :=
  match getKey key m with
  | some (.int n) => some n
  | some (.float n) => some n
  | some (.str s) => epochOf s
  | some .other => none
  | none => none

/-! ## The store -/

abbrev Store := List MemoryBlockRecord

/-- `InsertMemoryBlock`; `none` when the id is taken. -/
def insertMemoryBlock (block : MemoryBlockRecord) (t : Store) : Option Store :=
  insertRow MemoryBlockRecord.blockId block t

/-- `UpdateMemoryBlock`: the metadata of the row is overwritten. -/
def updateMemoryBlock (block : MemoryBlockRecord) (t : Store) : Store :=
  updateWhere (fun r => r.blockId == block.blockId) (fun r => { r with metadata := block.metadata }) t

def getMemoryBlock (blockId : String) (t : Store) : Option MemoryBlockRecord :=
  lookup MemoryBlockRecord.blockId blockId t

/-! ## Requests and answers -/

structure MemoryCreateRequest where
  userId : String
  content : String
  memoryType : String

structure MemoryEditRequest where
  memoryId : String
  newContent : Option String := none
  newMemoryType : Option String := none
  expectedModifiedAt : Option Int := none

structure MemoryEditResult where
  newMemoryId : String
  oldMemoryId : String

inductive Mem03ErrorCode
  | kMemoryNotFound
  | kUserMismatch
  | kInvalidateFailed

inductive Failure
  | mem03 (code : Mem03ErrorCode) (detail : String)
  | invalidArgument (message : String)
  | unavailable (message : String)
  /-- The status of the store. -/
  | store

inductive Answer
  | created (blockId : String)
  | edited (result : MemoryEditResult)
  | deleted
  | failed (e : Failure)

/-! ## What the calls compute -/

def kMaxContentLength : Nat := 2000

def isValidMemoryType (t : String) : Bool := t == "fact" || t == "preference" || t == "event"

def invalidType : Failure :=
  .invalidArgument "CX_ERR_MEM03_INVALID_TYPE: memory_type must be fact|preference|event"

def contentTooLong : Failure :=
  .invalidArgument "CX_ERR_MEM03_CONTENT_TOO_LONG: content exceeds 2000 chars"

def createChecks (req : MemoryCreateRequest) (sessionUserId : String) : Option Failure :=
  if req.userId ≠ sessionUserId then some (.mem03 .kUserMismatch "create user_id must match session user")
  else if !isValidMemoryType req.memoryType then some invalidType
  else if kMaxContentLength < req.content.utf8ByteSize then some contentTooLong
  else none

def createdBlock (req : MemoryCreateRequest) (ulid : String) (nowMs : Int) : MemoryBlockRecord where
  blockId := ulid
  userId := req.userId
  content := req.content
  metadata :=
    [("memory_type", .str req.memoryType), ("status", .str "active"), ("extraction_method", .str "explicit"),
      ("user_id", .str req.userId), ("extracted_at", .int nowMs), ("last_modified_at", .int nowMs)]

def MemoryBlockRecord.owner (r : MemoryBlockRecord) : String :=
  if r.userId ≠ "" then r.userId else readString r.metadata "user_id"

/-- `FetchOwnedMemory`, on the answer of the store. -/
def fetchOwnedMemory (found : Option MemoryBlockRecord) (memoryId sessionUserId : String) :
    Except Failure MemoryBlockRecord :=
  match found with
  | none => .error (.mem03 .kMemoryNotFound memoryId)
  | some r => if r.owner ≠ sessionUserId then .error (.mem03 .kMemoryNotFound memoryId) else .ok r

def editConcurrent (expected : Int) (cur : Option Int) : Failure :=
  .unavailable ("CX_ERR_MEM03_EDIT_CONCURRENT: last_modified_at mismatch (expected " ++ toString expected ++
    ", actual " ++ (match cur with | some c => toString c | none => "none") ++ ")")

def MemoryEditRequest.typeOf (req : MemoryEditRequest) (old : MemoryBlockRecord) : String :=
  req.newMemoryType.getD (readString old.metadata "memory_type")

def MemoryEditRequest.contentOf (req : MemoryEditRequest) (old : MemoryBlockRecord) : String :=
  req.newContent.getD old.content

/-- The checks of `Edit` on the block it has fetched. -/
def editChecks (epochOf : String → Option Int) (req : MemoryEditRequest) (old : MemoryBlockRecord) : Option Failure :=
  if req.newMemoryType.isSome ∧ !isValidMemoryType (req.typeOf old) then some invalidType
  else if kMaxContentLength < (req.contentOf old).utf8ByteSize then some contentTooLong
  else
    match req.expectedModifiedAt with
    | some expected =>
      let cur := readTimestampMs epochOf old.metadata "last_modified_at"
      if cur ≠ some expected then some (editConcurrent expected cur) else none
    | none => none

/-- A key carried forward from the old block. -/
def carry (key : String) (old m : Metadata) : Metadata :=
  match readOptString old key with
  | some s => setKey key (.str s) m
  | none => m

def newBlock (req : MemoryEditRequest) (old : MemoryBlockRecord) (ulid : String) (nowMs : Int) : MemoryBlockRecord where
  blockId := ulid
  nsId := old.nsId
  userId := old.userId
  content := req.contentOf old
  metadata :=
    carry "source_interaction_id" old.metadata
      (carry "source_session_id" old.metadata
        [("memory_type", .str (req.typeOf old)), ("status", .str "active"), ("extraction_method", .str "user_edit"),
          ("user_id", .str old.userId), ("extracted_at", .int nowMs), ("last_modified_at", .int nowMs)])

def editedBlock (old : MemoryBlockRecord) (newId : String) (nowMs : Int) : MemoryBlockRecord :=
  { old with
    metadata :=
      setKey "invalidation_triggered_by" (.str "user_edit")
        (setKey "last_modified_at" (.int nowMs)
          (setKey "invalidated_at" (.int nowMs)
            (setKey "invalidated_by_block_id" (.str newId) (setKey "status" (.str "invalidated") old.metadata)))) }

def deletedBlock (old : MemoryBlockRecord) (sessionUserId : String) (nowMs : Int) : MemoryBlockRecord :=
  { old with
    metadata :=
      setKey "invalidation_triggered_by" (.str "user_manual")
        (setKey "last_modified_at" (.int nowMs)
          (setKey "invalidated_at" (.int nowMs)
            (setKey "deleted_at" (.int nowMs)
              (setKey "deleted_by_user_id" (.str sessionUserId)
                (setKey "status" (.str "invalidated") old.metadata))))) }

/-! ## The calls -/

inductive Phase
  | creating (req : MemoryCreateRequest)
  | fetching (req : MemoryEditRequest)
  | inserting (req : MemoryEditRequest) (old : MemoryBlockRecord)
  /-- The new block is in; the old one is overwritten by `edited`. -/
  | updating (edited : MemoryBlockRecord) (newId : String)
  | finding (memoryId : String)
  | deleting (old : MemoryBlockRecord)
  | returned (a : Answer)

/-- A call, and whether it has written to the store. -/
structure Call where
  sessionUserId : String
  phase : Phase
  wrote : Bool := false

structure State where
  store : Store
  calls : List Call := []
  /-- The blocks that an `Edit` has inserted, each with the block that was edited. -/
  edits : List (String × String) := []

def State.setCall (s : State) (i : Nat) (c : Call) : State := { s with calls := s.calls.set i c }

/-- The next step of a call; `ok` tells whether the store does it, `nowMs` and `ulid` are the clock and the id drawn. -/
def advance (epochOf : String → Option Int) (s : State) (i : Nat) (c : Call) (ok : Bool) (nowMs : Int) (ulid : String) :
    Option State :=
  match c.phase with
  | .creating req =>
    match (if ok then insertMemoryBlock (createdBlock req ulid nowMs) s.store else none) with
    | some t => some ({ s with store := t }.setCall i { c with phase := .returned (.created ulid), wrote := true })
    | none => some (s.setCall i { c with phase := .returned (.failed .store) })
  | .fetching req =>
    match fetchOwnedMemory (if ok then getMemoryBlock req.memoryId s.store else none) req.memoryId c.sessionUserId with
    | .error e => some (s.setCall i { c with phase := .returned (.failed e) })
    | .ok old =>
      match editChecks epochOf req old with
      | some e => some (s.setCall i { c with phase := .returned (.failed e) })
      | none => some (s.setCall i { c with phase := .inserting req old })
  | .inserting req old =>
    match (if ok then insertMemoryBlock (newBlock req old ulid nowMs) s.store else none) with
    | some t =>
      some ({ s with store := t, edits := (ulid, old.blockId) :: s.edits }.setCall i
        { c with phase := .updating (editedBlock old ulid nowMs) ulid, wrote := true })
    | none =>
      some (s.setCall i
        { c with phase := .returned (.failed (.mem03 .kInvalidateFailed "insert new edited block failed")) })
  | .updating edited newId =>
    if ok then
      some ({ s with store := updateMemoryBlock edited s.store }.setCall i
        { c with phase := .returned (.edited ⟨newId, edited.blockId⟩), wrote := true })
    else
      -- the new block stays
      some (s.setCall i
        { c with phase := .returned (.failed (.mem03 .kInvalidateFailed "invalidate old block failed")) })
  | .finding memoryId =>
    match fetchOwnedMemory (if ok then getMemoryBlock memoryId s.store else none) memoryId c.sessionUserId with
    | .error e => some (s.setCall i { c with phase := .returned (.failed e) })
    | .ok old =>
      if readString old.metadata "status" = "invalidated" then some (s.setCall i { c with phase := .returned .deleted })
      else some (s.setCall i { c with phase := .deleting old })
  | .deleting old =>
    if ok then
      some ({ s with store := updateMemoryBlock (deletedBlock old c.sessionUserId nowMs) s.store }.setCall i
        { c with phase := .returned .deleted, wrote := true })
    else
      some (s.setCall i { c with phase := .returned (.failed (.mem03 .kInvalidateFailed "soft-delete update failed")) })
  | .returned _ => none

inductive Act
  | create (req : MemoryCreateRequest) (sessionUserId : String)
  | edit (req : MemoryEditRequest) (sessionUserId : String)
  | delete (memoryId sessionUserId : String)
  | run (i : Nat) (ok : Bool) (nowMs : Int) (ulid : String)

def startCreate (req : MemoryCreateRequest) (sessionUserId : String) : Phase :=
  match createChecks req sessionUserId with
  | some e => .returned (.failed e)
  | none => .creating req

def step (epochOf : String → Option Int) (s : State) : Act → Option State
  | .create req sessionUserId => some { s with calls := s.calls ++ [⟨sessionUserId, startCreate req sessionUserId, false⟩] }
  | .edit req sessionUserId => some { s with calls := s.calls ++ [⟨sessionUserId, .fetching req, false⟩] }
  | .delete memoryId sessionUserId => some { s with calls := s.calls ++ [⟨sessionUserId, .finding memoryId, false⟩] }
  | .run i ok nowMs ulid => s.calls[i]?.bind fun c => advance epochOf s i c ok nowMs ulid

def init (store : Store) : State := { store := store }

end MemoryTransparency

end Cortrix.Memory
