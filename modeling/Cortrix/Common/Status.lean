import Mathlib.Data.List.Basic

/-!
# Status and the store error codes

`Status` is the coarse code and the message; a store error carries its stable `CX_ERR_*` identity as a
prefix of the message (`pwlStatus`, `phnswStatus`).
-/

namespace Cortrix

inductive StatusCode
  | ok | invalidArgument | notFound | alreadyExists | permissionDenied | unauthenticated | internal | unavailable
  deriving DecidableEq

structure Status where
  code : StatusCode
  message : String
  deriving DecidableEq

namespace Status

def okStatus : Status := ⟨.ok, ""⟩

def isOk (s : Status) : Bool := s.code == .ok

end Status

namespace PwlErrors

def kWriteFailed := "CX_ERR_PWL_WRITE_FAILED"
def kCorrupted := "CX_ERR_PWL_CORRUPTED"
def kTxnNotFound := "CX_ERR_PWL_TXN_NOT_FOUND"
def kTxnAlreadyCommitted := "CX_ERR_PWL_TXN_ALREADY_COMMITTED"
def kTxnAlreadyRollback := "CX_ERR_PWL_TXN_ALREADY_ROLLBACK"
def kRollbackCallbackFailed := "CX_ERR_PWL_ROLLBACK_CALLBACK_FAILED"
def kDocWriteInProgress := "CX_ERR_PWL_DOC_WRITE_IN_PROGRESS"

end PwlErrors

namespace PhnswErrors

def kVectorDimMismatch := "CX_ERR_PHNSW_VECTOR_DIM_MISMATCH"
def kWalWriteFailed := "CX_ERR_PHNSW_WAL_WRITE_FAILED"
def kWalCorrupted := "CX_ERR_PHNSW_WAL_CORRUPTED"
def kWalSyncFailed := "CX_ERR_PHNSW_WAL_SYNC_FAILED"
def kSnapshotCorrupted := "CX_ERR_PHNSW_SNAPSHOT_CORRUPTED"
def kNotReady := "CX_ERR_PHNSW_NOT_READY"

end PhnswErrors

/-- A `Status` whose message is `"<code>: <detail>"`. -/
def pwlStatus (sc : StatusCode) (code detail : String) : Status := ⟨sc, code ++ ": " ++ detail⟩

def phnswStatus (sc : StatusCode) (code detail : String) : Status := ⟨sc, code ++ ": " ++ detail⟩

end Cortrix
