import Cortrix.Lib.Txn
import Cortrix.Common.Status
import Cortrix.Catalog.GcManager

/-!
# The catalog transactions, statement by statement

`IncrementRef`, `DecrementRef`, the transaction of `Restore` for one document and the one of Stage 2 for one file as the
statements they issue, each with the outcome the engine gives it, and with the `ROLLBACK` of every error exit. The data
each of them commits is the one of `Catalog.GcManager` (`incrementRef`, `decrementRef`, `restoreRefs`, `hardDelete`).
-/

namespace Cortrix.Catalog
open Lib Lib.Txn

/-! ## Errors -/

inductive CatalogErrorCode
  | transactionRetry | refCountNegative | internalError
  deriving DecidableEq

structure CatalogError where
  code : CatalogErrorCode
  detail : String

def gcStatus (detail : String) : Status := ⟨.internal, "CX_ERR_GC_INTERNAL: " ++ detail⟩

/-! ## The reference store -/

/-- `sqlite3_column_int`: the low 32 bits of the stored integer. -/
def columnInt (n : Int) : Int := n.bmod (2 ^ 32)

/-- `SELECT ref_count FROM file_locations WHERE file_hash=?`, read as an `int`. -/
def readCount (fileHash : String) (noRow : Int) (c : Tables) : Int :=
  match lookup FileLocation.fileHash fileHash c.files with
  | some f => columnInt f.refCount
  | none => noRow

structure IncrementOutcomes where
  start : Outcome
  probe : Stmt
  upsert : Stmt
  count : Stmt
  commit : Outcome
  rollback : Outcome

/-- The two writes for a reference that is genuinely new. -/
def addRefSql (fileHash nsId docId : String) (o : IncrementOutcomes) : Sql Tables CatalogError Unit := do
  execute o.upsert (fun m => abandon o.rollback ⟨.internalError, "prepare IncrementRef: " ++ m⟩)
    (abandon o.rollback ⟨.internalError, "IncrementRef upsert failed"⟩)
    (fun c => ((), { c with refs := upsertRef fileHash nsId docId c.refs }))
  execute o.count (fun m => abandon o.rollback ⟨.internalError, "prepare ref_count++: " ++ m⟩)
    (abandon o.rollback ⟨.internalError, "ref_count++ failed"⟩)
    (fun c => ((), { c with files := addRefCount fileHash 1 c.files }))

def incrementRefSql (fileHash nsId docId : String) (o : IncrementOutcomes) : Sql Tables CatalogError Unit := do
  beginTxn o.start ⟨.transactionRetry, "begin failed"⟩
  -- only `SQLITE_ROW` counts as an active row: a probe that fails to step reads as none
  let alreadyActive ← query o.probe
    (fun m => abandon o.rollback ⟨.internalError, "prepare IncrementRef probe: " ++ m⟩) false
    (fun c => c.refs.any (isActiveRef fileHash nsId docId))
  (if alreadyActive then pure () else addRefSql fileHash nsId docId o)
  commit o.commit o.rollback ⟨.transactionRetry, "commit failed"⟩

structure DecrementOutcomes where
  start : Outcome
  softDelete : Stmt
  current : Stmt
  count : Stmt
  commit : Outcome
  rollback : Outcome
  getCount : Stmt

/-- The aggregate after a reference was soft-deleted; a count that could not be read is -1, as for a file without a row. -/
def lowerCountSql (fileHash : String) (o : DecrementOutcomes) : Sql Tables CatalogError Unit := do
  let current ← query o.current (fun _ => pure (-1)) (-1) (readCount fileHash (-1))
  if current = 0 then
    abandon o.rollback ⟨.refCountNegative, "file '" ++ fileHash ++ "' ref_count already 0"⟩
  else if 0 < current then
    execute o.count (fun m => abandon o.rollback ⟨.internalError, "prepare ref_count--: " ++ m⟩)
      (abandon o.rollback ⟨.internalError, "ref_count-- failed"⟩)
      (fun c => ((), { c with files := addRefCount fileHash (-1) c.files }))
  else pure ()

def getRefCountSql (fileHash : String) (st : Stmt) : Sql Tables CatalogError Int :=
  query st (fun m => throw ⟨.internalError, "prepare GetRefCount: " ++ m⟩) 0 (readCount fileHash 0)

def decrementRefSql (fileHash nsId docId : String) (o : DecrementOutcomes) : Sql Tables CatalogError Int := do
  beginTxn o.start ⟨.transactionRetry, "begin failed"⟩
  let removed ← execute o.softDelete
    (fun m => abandon o.rollback ⟨.internalError, "prepare DecrementRef: " ++ m⟩)
    (abandon o.rollback ⟨.internalError, "DecrementRef update failed"⟩)
    (fun c => (decide (0 < changes (isActiveRef fileHash nsId docId) c.refs),
      { c with refs := softDeleteRef fileHash nsId docId c.refs }))
  (if removed then lowerCountSql fileHash o else pure ())
  commit o.commit o.rollback ⟨.transactionRetry, "commit failed"⟩
  getRefCountSql fileHash o.getCount

/-! ## The collector -/

structure RestoreOutcomes where
  start : Outcome
  reactivate : Stmt
  recount : Stmt
  commit : Outcome
  rollback : Outcome

/-- The file row of a restored document: active, not deleted, its count taken from the references. -/
def recountFile (fileHash : String) (c : Tables) : Tables :=
  { c with
    files := updateWhere (fun f => f.fileHash == fileHash)
      (fun f => { f with status := .active, deletedAt := none, refCount := activeRefs fileHash c.refs }) c.files }

/-- The transaction of `Restore`; a failure of any of it is recorded under one code. -/
def restoreRefsSql (fileHash docId : String) (o : RestoreOutcomes) : Sql Tables String Unit := do
  beginTxn o.start "CX_ERR_GC_INTERNAL"
  execute o.reactivate (fun _ => abandon o.rollback "CX_ERR_GC_INTERNAL") (abandon o.rollback "CX_ERR_GC_INTERNAL")
    (fun c => ((), { c with refs := reactivateRefs fileHash docId c.refs }))
  execute o.recount (fun _ => abandon o.rollback "CX_ERR_GC_INTERNAL") (abandon o.rollback "CX_ERR_GC_INTERNAL")
    (fun c => ((), recountFile fileHash c))
  commit o.commit o.rollback "CX_ERR_GC_INTERNAL"

structure HardDeleteOutcomes where
  start : Outcome
  enqueue : Stmt
  deleteRefs : Stmt
  deleteFile : Stmt
  commit : Outcome
  rollback : Outcome

def hardDeleteSql (cand : Cand) (queuedAt eligibleAt : Int) (o : HardDeleteOutcomes) : Sql Tables Status Unit := do
  beginTxn o.start (gcStatus "stage2 begin failed")
  (if cand.blobUri = "" then pure () else
    execute o.enqueue (fun m => abandon o.rollback (gcStatus ("enqueue prepare: " ++ m)))
      (abandon o.rollback (gcStatus "enqueue failed"))
      (fun c => ((), { c with
        queue := enqueueBlob ⟨cand.blobUri, cand.fileHash, queuedAt, eligibleAt, queuedAt, .pending⟩ c.queue })))
  execute o.deleteRefs (fun m => abandon o.rollback (gcStatus ("cr delete: " ++ m)))
    (abandon o.rollback (gcStatus "cr delete failed"))
    (fun c => ((), { c with refs := deleteWhere (fun r => r.fileHash == cand.fileHash && r.status == .deleted) c.refs }))
  execute o.deleteFile (fun m => abandon o.rollback (gcStatus ("fl delete: " ++ m)))
    (abandon o.rollback (gcStatus "fl delete failed"))
    (fun c => ((), { c with files := deleteWhere (fun f => f.fileHash == cand.fileHash) c.files }))
  commit o.commit o.rollback (gcStatus "stage2 commit failed")

def markUnlinkedSql (uri : String) (st : Stmt) : Sql Tables Status Unit :=
  execute st (fun m => throw (gcStatus ("stage3 update: " ++ m))) (throw (gcStatus "stage3 update failed"))
    (fun c => ((), markUnlinked uri c))

/-! ## What they leave behind -/

variable {t : Tables} {fileHash nsId docId : String}

/-- An error exit: the connection as it was before the transaction, and no negative count. -/
def LeftAlone (t : Tables) (e : CatalogError) (c : Conn Tables) : Prop :=
  c = ⟨t, none⟩ ∧ e.code ≠ .refCountNegative

theorem leftAlone_internal (detail : String) : LeftAlone t ⟨.internalError, detail⟩ ⟨t, none⟩ :=
  ⟨rfl, nofun⟩

theorem leftAlone_retry (detail : String) : LeftAlone t ⟨.transactionRetry, detail⟩ ⟨t, none⟩ :=
  ⟨rfl, nofun⟩

/-- The probe of `IncrementRef` tells an active reference: it runs, or it fails where there is none to see. -/
def ProbeTells (t : Tables) (fileHash nsId docId : String) (o : IncrementOutcomes) : Prop :=
  o.probe.step = .ok ∨ o.probe.step = .failed ∧ t.refs.any (isActiveRef fileHash nsId docId) = false

theorem incrementRefSql_ends {o : IncrementOutcomes} (hrb : o.rollback ≠ .failed)
    (hprobe : ProbeTells t fileHash nsId docId o) :
    Ends (incrementRefSql fileHash nsId docId o) ⟨t, none⟩
      (fun _ c => c = ⟨incrementRef fileHash nsId docId t, none⟩) (LeftAlone t) := by
  -- what follows once the probe has told
  have hrest : ∀ b, b = t.refs.any (isActiveRef fileHash nsId docId) →
      Ends (do (if b then pure () else addRefSql fileHash nsId docId o)
               commit o.commit o.rollback ⟨.transactionRetry, "commit failed"⟩) ⟨t, some t⟩
        (fun _ c => c = ⟨incrementRef fileHash nsId docId t, none⟩) (LeftAlone t) := by
    intro b hb
    apply ends_bind
    by_cases hact : b = true
    · rw [if_pos hact]
      apply ends_pure
      apply ends_commit hrb _ (leftAlone_retry _)
      rw [incrementRef, if_pos (hb.symm.trans hact)]
    · rw [if_neg hact]
      apply ends_bind
      apply ends_execute hrb _ (fun _ _ => leftAlone_internal _) (leftAlone_internal _)
      apply ends_execute hrb _ (fun _ _ => leftAlone_internal _) (leftAlone_internal _)
      apply ends_commit hrb _ (leftAlone_retry _)
      rw [incrementRef, if_neg (fun h => hact (hb.trans h))]
  apply ends_bind
  apply ends_begin _ (leftAlone_retry _)
  apply ends_bind
  apply ends_query
  · intro m _
    exact ends_abandon hrb (leftAlone_internal _)
  · intro _ _
    exact hrest _ rfl
  · intro _ hstep
    rcases hprobe with hok | ⟨hfailed, hnone⟩
    · exact absurd hok hstep
    · rw [hfailed]
      exact hrest false hnone.symm

/-- What `DecrementRef` reads of the count of an active reference's file: the read does not fail (unless the engine
rolls the transaction back for it), sees a positive number, and the last read of it prepares. -/
structure CountTells (t : Tables) (fileHash nsId docId : String) (o : DecrementOutcomes) : Prop where
  current : t.refs.any (isActiveRef fileHash nsId docId) = true →
    o.current.prepare = none ∧ o.current.step ≠ .failed ∨ lookup FileLocation.fileHash fileHash t.files = none
  positive : t.refs.any (isActiveRef fileHash nsId docId) = true →
    ∀ f ∈ lookup FileLocation.fileHash fileHash t.files, 0 < columnInt f.refCount
  getCount : t.refs.any (isActiveRef fileHash nsId docId) = true → o.getCount.prepare = none

/-- The tables without the reference, the aggregate still to be lowered. -/
def withoutRef (fileHash nsId docId : String) (t : Tables) : Tables :=
  { t with refs := softDeleteRef fileHash nsId docId t.refs }

def dropRef (fileHash nsId docId : String) (t : Tables) : Tables :=
  { t with refs := softDeleteRef fileHash nsId docId t.refs, files := addRefCount fileHash (-1) t.files }

theorem addRefCount_of_none {files : List FileLocation} (h : lookup FileLocation.fileHash fileHash files = none)
    (n : Int) : addRefCount fileHash n files = files := by
  rw [lookup_eq_none] at h
  apply updateWhere_of_none
  intro f hf
  simp [h f hf]

theorem softDeleteRef_of_inactive {refs : List ContentRef} (h : refs.any (isActiveRef fileHash nsId docId) = false) :
    softDeleteRef fileHash nsId docId refs = refs := by
  simp only [List.any_eq_false, Bool.not_eq_true] at h
  exact updateWhere_of_none h

theorem withoutRef_of_none (h : lookup FileLocation.fileHash fileHash t.files = none) :
    withoutRef fileHash nsId docId t = dropRef fileHash nsId docId t := by
  rw [withoutRef, dropRef, addRefCount_of_none h]

theorem decrementRef_active (hact : t.refs.any (isActiveRef fileHash nsId docId) = true)
    (hpos : ∀ f, lookup FileLocation.fileHash fileHash t.files = some f → 0 < f.refCount) :
    decrementRef fileHash nsId docId t = some (dropRef fileHash nsId docId t) := by
  rw [decrementRef, if_pos hact]
  rcases hl : lookup FileLocation.fileHash fileHash t.files with _ | f
  · have hcur : currentCount fileHash t = -1 := by rw [currentCount, hl]
    rw [hcur, if_neg (by decide), if_neg (by decide)]
    exact congrArg some (withoutRef_of_none hl)
  · have hcur : currentCount fileHash t = f.refCount := by rw [currentCount, hl]
    have := hpos f hl
    rw [hcur, if_neg (by omega), if_pos this]
    rfl

theorem lowerCountSql_ends {o : DecrementOutcomes} (hrb : o.rollback ≠ .failed)
    (hact : t.refs.any (isActiveRef fileHash nsId docId) = true) (hcount : CountTells t fileHash nsId docId o) :
    Ends (lowerCountSql fileHash o) ⟨withoutRef fileHash nsId docId t, some t⟩
      (fun _ c => c = ⟨dropRef fileHash nsId docId t, some t⟩ ∨ c = ⟨t, none⟩) (LeftAlone t) := by
  apply ends_bind
  apply ends_query
  · intro m hm
    rcases hcount.current hact with ⟨hprep, -⟩ | hnone
    · rw [hprep] at hm
      cases hm
    · rw [withoutRef_of_none hnone]
      exact Or.inl rfl
  · intro _ _
    show Ends (if readCount fileHash (-1) (withoutRef fileHash nsId docId t) = 0 then _
      else if 0 < readCount fileHash (-1) (withoutRef fileHash nsId docId t) then _ else _) _ _ _
    rcases hl : lookup FileLocation.fileHash fileHash t.files with _ | f
    · have hread : readCount fileHash (-1) (withoutRef fileHash nsId docId t) = -1 := by rw [readCount, withoutRef, hl]
      rw [hread, if_neg (by decide), if_neg (by decide), withoutRef_of_none hl]
      exact Or.inl rfl
    · have hread : readCount fileHash (-1) (withoutRef fileHash nsId docId t) = columnInt f.refCount := by
        rw [readCount, withoutRef, hl]
      have hpos := hcount.positive hact f hl
      rw [hread, if_neg (by omega), if_pos hpos]
      exact ends_execute hrb (Or.inl rfl) (fun _ _ => leftAlone_internal _) (leftAlone_internal _)
  · intro _ hstep
    by_cases hab : o.current.step = .aborted
    · rw [hab]
      exact Or.inr rfl
    rcases hcount.current hact with ⟨-, hne⟩ | hnone
    · rcases hs : o.current.step with _ | _ | _
      · exact absurd hs hstep
      · exact absurd hs hne
      · exact absurd hs hab
    · rw [Conn.fault, if_neg hab, withoutRef_of_none hnone]
      exact Or.inl rfl

theorem getRefCountSql_ends {o : DecrementOutcomes} {c : Tables} (h : o.getCount.prepare = none ∨ c = t) :
    Ends (getRefCountSql fileHash o.getCount) ⟨c, none⟩ (fun _ c' => c' = ⟨c, none⟩) (LeftAlone t) := by
  apply ends_query
  · intro m hm
    rcases h with hnone | rfl
    · rw [hnone] at hm
      cases hm
    · exact leftAlone_internal _
  · exact fun _ _ => rfl
  · exact fun _ _ => Conn.fault_closed _ _

theorem decrementRefSql_ends {o : DecrementOutcomes} (hrb : o.rollback ≠ .failed)
    (hcount : CountTells t fileHash nsId docId o)
    (hpos : t.refs.any (isActiveRef fileHash nsId docId) = true →
      ∀ f, lookup FileLocation.fileHash fileHash t.files = some f → 0 < f.refCount) :
    Ends (decrementRefSql fileHash nsId docId o) ⟨t, none⟩
      (fun _ c => ∃ t', decrementRef fileHash nsId docId t = some t' ∧ c = ⟨t', none⟩) (LeftAlone t) := by
  have hremoved : 0 < changes (isActiveRef fileHash nsId docId) t.refs ↔
      t.refs.any (isActiveRef fileHash nsId docId) = true := by
    rw [changes_pos, List.any_eq_true]
  apply ends_bind
  apply ends_begin _ (leftAlone_retry _)
  apply ends_bind
  apply ends_execute hrb _ (fun _ _ => leftAlone_internal _) (leftAlone_internal _)
  show Ends (do (if decide (0 < changes (isActiveRef fileHash nsId docId) t.refs) = true then _ else _); _)
    ⟨withoutRef fileHash nsId docId t, some t⟩ _ _
  apply ends_bind
  by_cases hact : t.refs.any (isActiveRef fileHash nsId docId) = true
  · rw [if_pos (decide_eq_true (hremoved.mpr hact))]
    apply (lowerCountSql_ends hrb hact hcount).mono
    rintro _ c (rfl | rfl)
    · apply ends_bind
      apply ends_commit hrb _ (leftAlone_retry _)
      apply (getRefCountSql_ends (Or.inl (hcount.getCount hact))).mono
      rintro _ c rfl
      exact ⟨_, decrementRef_active hact (hpos hact), rfl⟩
    · apply ends_bind
      exact ends_commit_lost (leftAlone_retry _)
  · have hsame : withoutRef fileHash nsId docId t = t := by
      rw [withoutRef, softDeleteRef_of_inactive (Bool.not_eq_true _ ▸ hact)]
    rw [if_neg (fun h => hact (hremoved.mp (of_decide_eq_true h))), hsame]
    apply ends_pure
    apply ends_bind
    apply ends_commit hrb _ (leftAlone_retry _)
    apply (getRefCountSql_ends (Or.inr rfl)).mono
    rintro _ c rfl
    exact ⟨t, by rw [decrementRef, if_neg hact], rfl⟩

theorem restoreRefsSql_ends {o : RestoreOutcomes} (hrb : o.rollback ≠ .failed) :
    Ends (restoreRefsSql fileHash docId o) ⟨t, none⟩ (fun _ c => c = ⟨restoreRefs fileHash docId t, none⟩)
      (RolledBack t) := by
  apply ends_bind
  apply ends_begin _ (rolledBack t _)
  apply ends_bind
  apply ends_execute hrb _ (fun _ _ => rolledBack t _) (rolledBack t _)
  apply ends_bind
  apply ends_execute hrb _ (fun _ _ => rolledBack t _) (rolledBack t _)
  exact ends_commit hrb rfl (rolledBack t _)

theorem hardDeleteSql_ends {cand : Cand} {queuedAt eligibleAt : Int} {o : HardDeleteOutcomes}
    (hrb : o.rollback ≠ .failed) :
    Ends (hardDeleteSql cand queuedAt eligibleAt o) ⟨t, none⟩
      (fun _ c => c = ⟨hardDelete cand queuedAt eligibleAt t, none⟩) (RolledBack t) := by
  apply ends_bind
  apply ends_begin _ (rolledBack t _)
  apply ends_bind
  refine Ends.mono (Q := fun _ c => c = ⟨{ t with queue := (hardDelete cand queuedAt eligibleAt t).queue }, some t⟩) ?_ ?_
  · by_cases huri : cand.blobUri = ""
    · rw [if_pos huri]
      apply ends_pure
      rw [hardDelete, if_pos huri]
    · rw [if_neg huri]
      apply ends_execute hrb _ (fun _ _ => rolledBack t _) (rolledBack t _)
      rw [hardDelete, if_neg huri]
  · rintro _ c rfl
    apply ends_bind
    apply ends_execute hrb _ (fun _ _ => rolledBack t _) (rolledBack t _)
    apply ends_bind
    apply ends_execute hrb _ (fun _ _ => rolledBack t _) (rolledBack t _)
    exact ends_commit hrb rfl (rolledBack t _)

theorem markUnlinkedSql_ends {uri : String} {st : Stmt} :
    Ends (markUnlinkedSql uri st) ⟨t, none⟩ (fun _ c => c = ⟨markUnlinked uri t, none⟩) (RolledBack t) := by
  unfold Ends markUnlinkedSql execute
  rcases st.prepare with _ | m
  · by_cases ho : st.step = .ok
    · simp only [ho, if_true]
    · simp only [ho, if_false, Conn.fault_closed]
      rfl
  · rfl

end Cortrix.Catalog
