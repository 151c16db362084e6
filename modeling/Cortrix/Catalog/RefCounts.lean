import Cortrix.Catalog.RefTransactions

/-!
# The cached reference count

`file_locations.ref_count` caches the number of active references of a file. The transactions of the reference store
and of the collector run one after another on one connection, each with any outcome of its statements; between two
transactions of a sweep or of a restore the reference store may run its own.

* `ref_count_exact` : over every run; `ref_count_drifts` : what a read that fails does to it.
-/

namespace Cortrix.Catalog
open Lib Lib.Txn

/-! ## One connection -/

structure TxnState where
  conn : Conn Tables
  gc : Gc
  lastReport : Option GcRunReport
  lastGcAt : Option Int

def TxnState.init (t : Tables) : TxnState := ⟨⟨t, none⟩, .idle, none, none⟩

def TxnState.tables (s : TxnState) : Tables := s.conn.data

def TxnState.sys (s : TxnState) : State := ⟨s.conn.data, s.gc, s.lastReport, s.lastGcAt⟩

inductive TxnAct
  | increment (fileHash nsId docId : String) (o : IncrementOutcomes)
  | decrement (fileHash nsId docId : String) (o : DecrementOutcomes)
  /-- `RunOnce` or `Purge` up to the candidates, of which a select that fails midway gives the first `rows`. -/
  | sweep (now : Int) (bypassWindows : Bool) (prepare : Option String) (rows : Nat)
  | hardDelete (clock eligibleClock queuedClock : Int) (o : HardDeleteOutcomes)
  | selectBlobs (prepare : Option String) (rows : Nat)
  | unlink (clock : Int) (ok : Bool)
  | markUnlinked (st : Stmt)
  | sweepEnd (now : Int)
  | restore (docIds : List String)
  | restoreLookup (st : Stmt) (found : Option ContentRef)
  | restoreRefs (o : RestoreOutcomes)
  | restoreEnd

/-- What a transaction reports: an error of the reference store, the error a sweep ends with, the entry `Restore`
records for a document. -/
inductive Failure
  | catalog (e : CatalogError)
  | sweep (status : Status)
  | restore (docId code : String)

def Failure.isNegative : Failure → Bool
  | .catalog e => e.code == .refCountNegative
  | _ => false

def failureOf {ε α : Type} (wrap : ε → Failure) : Except ε α → Option Failure
  | .ok _ => none
  | .error e => some (wrap e)

def execHardDelete (cfg : GcConfig) (s : TxnState) (clock eligibleClock queuedClock : Int) (o : HardDeleteOutcomes) :
    Option (TxnState × Option Failure) :=
  match s.gc with
  | .stage2 info (cand :: rest) report =>
    if stopped cfg info report.hardDeleted clock then
      some ({ s with gc := .stage2 info [] { report with hitRunCap := true } }, none)
    else
      let report' := { report with hardDeleted := report.hardDeleted + 1 }
      if cfg.dryRun then some ({ s with gc := .stage2 info rest report' }, none)
      else
        let eligibleAt := if info.bypassWindows then eligibleClock else eligibleClock + daysToMs cfg.blobGcRetentionDays
        let r := hardDeleteSql cand queuedClock eligibleAt o s.conn
        match r.1 with
        | .ok _ => some ({ s with conn := r.2, gc := .stage2 info rest report' }, none)
        | .error e => some ({ s with conn := r.2, gc := .idle }, some (.sweep e))
  | _ => none

def execMarkUnlinked (s : TxnState) (st : Stmt) : Option (TxnState × Option Failure) :=
  match s.gc with
  | .marking info uri uris report =>
    let r := markUnlinkedSql uri st s.conn
    match r.1 with
    | .ok _ => some ({ s with
        conn := r.2, gc := .stage3 info uris { report with blobsUnlinked := report.blobsUnlinked + 1 } }, none)
    | .error e => some ({ s with conn := r.2, gc := .idle }, some (.sweep e))
  | _ => none

/-- The lookup of `Restore`; one that fails to step finds no document. -/
def execRestoreLookup (s : TxnState) (st : Stmt) (found : Option ContentRef) : Option (TxnState × Option Failure) :=
  match s.gc with
  | .restoring (docId :: docIds) out =>
    let failed (code : String) : TxnState × Option Failure :=
      ({ s with gc := .restoring docIds { out with failed := out.failed ++ [(docId, code)] } }, some (.restore docId code))
    match st.prepare with
    | some _ => some (failed "CX_ERR_GC_INTERNAL")
    | none =>
      if st.step = .ok then (restoreLookupStep s.sys found).map fun sys => ({ s with gc := sys.gc }, none)
      else some (failed "CX_ERR_GC_DOC_NOT_FOUND")
  | _ => none

def execRestoreRefs (s : TxnState) (o : RestoreOutcomes) : Option (TxnState × Option Failure) :=
  match s.gc with
  | .restoreFound fileHash docId docIds out =>
    let r := restoreRefsSql fileHash docId o s.conn
    match r.1 with
    | .ok _ => some ({ s with
        conn := r.2, gc := .restoring docIds { out with succeeded := out.succeeded ++ [docId] } }, none)
    | .error code => some ({ s with
        conn := r.2, gc := .restoring docIds { out with failed := out.failed ++ [(docId, code)] } },
        some (.restore docId code))
  | _ => none

/-- One transaction, or one step of a sweep or a restore between two of them. -/
def exec (cfg : GcConfig) (s : TxnState) : TxnAct → Option (TxnState × Option Failure)
  | .increment fileHash nsId docId o =>
    let r := incrementRefSql fileHash nsId docId o s.conn
    some ({ s with conn := r.2 }, failureOf .catalog r.1)
  | .decrement fileHash nsId docId o =>
    let r := decrementRefSql fileHash nsId docId o s.conn
    some ({ s with conn := r.2 }, failureOf .catalog r.1)
  | .sweep now bypass prepare rows =>
    if s.gc = .idle then
      match prepare with
      | some m => some (s, some (.sweep (gcStatus ("stage2 select: " ++ m))))
      | none => some ({ s with
          gc := .stage2 ⟨now, now + cfg.maxRunDurationMinutes * 60 * 1000, bypass⟩
            ((stage2Candidates (stage2Cutoff cfg now bypass) s.tables).take rows) ⟨0, 0, false⟩ }, none)
    else none
  | .hardDelete clock eligibleClock queuedClock o => execHardDelete cfg s clock eligibleClock queuedClock o
  | .selectBlobs prepare rows =>
    match s.gc with
    | .stage2 info [] report =>
      match prepare with
      | some m => some ({ s with gc := .idle }, some (.sweep (gcStatus ("stage3 select: " ++ m))))
      | none => some ({ s with
          gc := .stage3 info ((stage3Uris info.now info.bypassWindows s.tables).take rows) report }, none)
    | _ => none
  | .unlink clock ok => (unlinkStep cfg s.sys clock ok).map fun sys => ({ s with gc := sys.gc }, none)
  | .markUnlinked st => execMarkUnlinked s st
  | .sweepEnd now =>
    match s.gc with
    | .stage3 _ [] report => some ({ s with gc := .idle, lastReport := some report, lastGcAt := some now }, none)
    | _ => none
  | .restore docIds => if s.gc = .idle then some ({ s with gc := .restoring docIds ⟨[], []⟩ }, none) else none
  | .restoreLookup st found => execRestoreLookup s st found
  | .restoreRefs o => execRestoreRefs s o
  | .restoreEnd =>
    match s.gc with
    | .restoring [] _ => some ({ s with gc := .idle }, none)
    | _ => none

def txnStep (cfg : GcConfig) (s : TxnState) (a : TxnAct) : Option TxnState := (exec cfg s a).map Prod.fst

/-- A read that decides what a transaction writes tells it what the tables hold, and a `ROLLBACK` is not refused. -/
def Steered (s : TxnState) : TxnAct → Prop
  | .increment fileHash nsId docId o => o.rollback ≠ .failed ∧ ProbeTells s.tables fileHash nsId docId o
  | .decrement fileHash nsId docId o => o.rollback ≠ .failed ∧ CountTells s.tables fileHash nsId docId o
  | .hardDelete _ _ _ o => o.rollback ≠ .failed
  | .restoreRefs o => o.rollback ≠ .failed
  | _ => True

instance (t : Tables) (fileHash nsId docId : String) (o : IncrementOutcomes) :
    Decidable (ProbeTells t fileHash nsId docId o) :=
  inferInstanceAs (Decidable (_ ∨ _))

instance (t : Tables) (fileHash nsId docId : String) (o : DecrementOutcomes) :
    Decidable (CountTells t fileHash nsId docId o) :=
  decidable_of_iff (t.refs.any (isActiveRef fileHash nsId docId) = true →
      (o.current.prepare = none ∧ o.current.step ≠ .failed ∨ lookup FileLocation.fileHash fileHash t.files = none) ∧
      (∀ f ∈ lookup FileLocation.fileHash fileHash t.files, 0 < columnInt f.refCount) ∧ o.getCount.prepare = none)
    ⟨fun h => ⟨fun ha => (h ha).1, fun ha => (h ha).2.1, fun ha => (h ha).2.2⟩,
      fun h ha => ⟨h.current ha, h.positive ha, h.getCount ha⟩⟩

instance (s : TxnState) (a : TxnAct) : Decidable (Steered s a) := by
  cases a <;> unfold Steered <;> infer_instance

/-! ## What a transaction commits -/

/-- The tables after a transaction: unchanged, or what the operation commits. -/
inductive Commits (t : Tables) : TxnAct → Tables → Prop
  | nothing (a : TxnAct) : Commits t a t
  | increment (fileHash nsId docId : String) (o : IncrementOutcomes) :
    Commits t (.increment fileHash nsId docId o) (incrementRef fileHash nsId docId t)
  | decrement {fileHash nsId docId : String} {o : DecrementOutcomes} {t' : Tables}
    (h : decrementRef fileHash nsId docId t = some t') : Commits t (.decrement fileHash nsId docId o) t'
  | hardDelete (clock eligibleClock queuedClock : Int) (o : HardDeleteOutcomes) (cand : Cand) (eligibleAt : Int) :
    Commits t (.hardDelete clock eligibleClock queuedClock o) (hardDelete cand queuedClock eligibleAt t)
  | markUnlinked (st : Stmt) (uri : String) : Commits t (.markUnlinked st) (markUnlinked uri t)
  | restoreRefs (o : RestoreOutcomes) (fileHash docId : String) :
    Commits t (.restoreRefs o) (restoreRefs fileHash docId t)

/-- A transaction on a closed connection: it is closed again, and a failure leaves the tables as they were. -/
structure Done (t : Tables) (a : TxnAct) (conn : Conn Tables) (failure : Option Failure) : Prop where
  commits : Commits t a conn.data
  closed : conn.saved = none
  failed : ∀ e, failure = some e → conn.data = t ∧ e.isNegative = false

variable {t t' : Tables} {s s' : TxnState} {a : TxnAct} {f : Option Failure} {cfg : GcConfig}
  {fileHash nsId docId : String}

theorem Done.idle (a : TxnAct) {f : Option Failure} (hf : ∀ e, f = some e → e.isNegative = false) :
    Done t a ⟨t, none⟩ f :=
  ⟨.nothing a, rfl, fun e he => ⟨rfl, hf e he⟩⟩

theorem Done.of_ends {ε α : Type} {m : Sql Tables ε α} {wrap : ε → Failure} {Q : α → Conn Tables → Prop}
    {E : ε → Conn Tables → Prop} (h : Ends m ⟨t, none⟩ Q E)
    (hQ : ∀ v c, Q v c → ∃ t', Commits t a t' ∧ c = ⟨t', none⟩)
    (hE : ∀ e c, E e c → c = ⟨t, none⟩ ∧ (wrap e).isNegative = false) :
    Done t a (m ⟨t, none⟩).2 (failureOf wrap (m ⟨t, none⟩).1) := by
  rcases hr : (m ⟨t, none⟩).1 with e | v
  · obtain ⟨hc, hneg⟩ := hE _ _ (h.error hr)
    rw [hc]
    apply Done.idle
    rintro _ ⟨⟩
    exact hneg
  · obtain ⟨t', hcommits, hc⟩ := hQ _ _ (h.ok hr)
    rw [hc]
    exact ⟨hcommits, rfl, nofun⟩

theorem leftAlone_done {e : CatalogError} {c : Conn Tables} (h : LeftAlone t e c) :
    c = ⟨t, none⟩ ∧ (Failure.catalog e).isNegative = false := by
  refine ⟨h.1, ?_⟩
  simpa [Failure.isNegative] using h.2

theorem done_increment {o : IncrementOutcomes} (hrb : o.rollback ≠ .failed) (hp : ProbeTells t fileHash nsId docId o) :
    Done t (.increment fileHash nsId docId o) (incrementRefSql fileHash nsId docId o ⟨t, none⟩).2
      (failureOf .catalog (incrementRefSql fileHash nsId docId o ⟨t, none⟩).1) := by
  apply Done.of_ends (incrementRefSql_ends hrb hp)
  · rintro _ c rfl
    exact ⟨_, .increment _ _ _ _, rfl⟩
  · exact fun e c h => leftAlone_done h

theorem done_decrement {o : DecrementOutcomes} (hrb : o.rollback ≠ .failed) (hc : CountTells t fileHash nsId docId o)
    (hpos : t.refs.any (isActiveRef fileHash nsId docId) = true →
      ∀ f, lookup FileLocation.fileHash fileHash t.files = some f → 0 < f.refCount) :
    Done t (.decrement fileHash nsId docId o) (decrementRefSql fileHash nsId docId o ⟨t, none⟩).2
      (failureOf .catalog (decrementRefSql fileHash nsId docId o ⟨t, none⟩).1) := by
  apply Done.of_ends (decrementRefSql_ends hrb hc hpos)
  · rintro _ c ⟨t', ht', rfl⟩
    exact ⟨t', .decrement ht', rfl⟩
  · exact fun e c h => leftAlone_done h

theorem done_hardDelete {clock eligibleClock queuedClock : Int} {o : HardDeleteOutcomes} (hrb : o.rollback ≠ .failed)
    (hconn : s.conn = ⟨t, none⟩) (h : execHardDelete cfg s clock eligibleClock queuedClock o = some (s', f)) :
    Done t (.hardDelete clock eligibleClock queuedClock o) s'.conn f := by
  unfold execHardDelete at h
  split at h
  · rename_i info cand rest report hgc
    rw [hconn] at h
    split at h
    · cases h
      exact Done.idle _ nofun
    dsimp only at h
    split at h
    · cases h
      exact Done.idle _ nofun
    -- the transaction of one candidate
    generalize (if info.bypassWindows then eligibleClock else eligibleClock + daysToMs cfg.blobGcRetentionDays) =
      eligibleAt at h
    have hdone : Done t (.hardDelete clock eligibleClock queuedClock o)
        (hardDeleteSql cand queuedClock eligibleAt o ⟨t, none⟩).2
        (failureOf .sweep (hardDeleteSql cand queuedClock eligibleAt o ⟨t, none⟩).1) := by
      apply Done.of_ends (hardDeleteSql_ends hrb)
      · rintro _ c rfl
        exact ⟨_, .hardDelete _ _ _ _ _ _, rfl⟩
      · exact fun e c h => ⟨h, rfl⟩
    split at h <;> rename_i hr <;> rw [hr] at hdone <;> cases h <;> exact hdone
  · cases h

theorem done_markUnlinked {st : Stmt} (hconn : s.conn = ⟨t, none⟩) (h : execMarkUnlinked s st = some (s', f)) :
    Done t (.markUnlinked st) s'.conn f := by
  unfold execMarkUnlinked at h
  split at h
  · rename_i info uri uris report hgc
    rw [hconn] at h
    have hdone : Done t (.markUnlinked st) (markUnlinkedSql uri st ⟨t, none⟩).2
        (failureOf .sweep (markUnlinkedSql uri st ⟨t, none⟩).1) := by
      apply Done.of_ends markUnlinkedSql_ends
      · rintro _ c rfl
        exact ⟨_, .markUnlinked _ _, rfl⟩
      · exact fun e c h => ⟨h, rfl⟩
    dsimp only at h
    split at h <;> rename_i hr <;> rw [hr] at hdone <;> cases h <;> exact hdone
  · cases h

theorem done_restoreRefs {o : RestoreOutcomes} (hrb : o.rollback ≠ .failed) (hconn : s.conn = ⟨t, none⟩)
    (h : execRestoreRefs s o = some (s', f)) : Done t (.restoreRefs o) s'.conn f := by
  unfold execRestoreRefs at h
  split at h
  · rename_i fileHash docId docIds out hgc
    rw [hconn] at h
    have hdone : Done t (.restoreRefs o) (restoreRefsSql fileHash docId o ⟨t, none⟩).2
        (failureOf (.restore docId) (restoreRefsSql fileHash docId o ⟨t, none⟩).1) := by
      apply Done.of_ends (restoreRefsSql_ends hrb)
      · rintro _ c rfl
        exact ⟨_, .restoreRefs _ _ _, rfl⟩
      · exact fun e c h => ⟨h, rfl⟩
    dsimp only at h
    split at h <;> rename_i hr <;> rw [hr] at hdone <;> cases h <;> exact hdone
  · cases h

theorem done_restoreLookup {st : Stmt} {found : Option ContentRef} (hconn : s.conn = ⟨t, none⟩)
    (h : execRestoreLookup s st found = some (s', f)) : Done t (.restoreLookup st found) s'.conn f := by
  have hsame : s'.conn = s.conn ∧ ∀ e, f = some e → e.isNegative = false := by
    unfold execRestoreLookup at h
    split at h
    · split at h
      · cases h
        exact ⟨rfl, by rintro _ ⟨⟩; rfl⟩
      · split at h
        · obtain ⟨sys, -, hs⟩ := Option.map_eq_some_iff.mp h
          cases hs
          exact ⟨rfl, nofun⟩
        · cases h
          exact ⟨rfl, by rintro _ ⟨⟩; rfl⟩
    · cases h
  rw [hsame.1, hconn]
  exact Done.idle _ hsame.2

theorem done_of_exec (hconn : s.conn = ⟨t, none⟩) (hst : Steered s a)
    (hpos : ∀ fileHash nsId docId, t.refs.any (isActiveRef fileHash nsId docId) = true →
      ∀ f, lookup FileLocation.fileHash fileHash t.files = some f → 0 < f.refCount)
    (h : exec cfg s a = some (s', f)) : Done t a s'.conn f := by
  have htables : s.tables = t := congrArg Conn.data hconn
  cases a with
  | increment fileHash nsId docId o =>
    obtain ⟨hrb, hp⟩ := hst
    cases h
    show Done t _ (incrementRefSql fileHash nsId docId o s.conn).2
      (failureOf .catalog (incrementRefSql fileHash nsId docId o s.conn).1)
    rw [hconn]
    exact done_increment hrb (htables ▸ hp)
  | decrement fileHash nsId docId o =>
    obtain ⟨hrb, hc⟩ := hst
    cases h
    show Done t _ (decrementRefSql fileHash nsId docId o s.conn).2
      (failureOf .catalog (decrementRefSql fileHash nsId docId o s.conn).1)
    rw [hconn]
    exact done_decrement hrb (htables ▸ hc) (hpos fileHash nsId docId)
  | hardDelete clock eligibleClock queuedClock o => exact done_hardDelete hst hconn h
  | markUnlinked st => exact done_markUnlinked hconn h
  | restoreRefs o => exact done_restoreRefs hst hconn h
  | restoreLookup st found => exact done_restoreLookup hconn h
  | sweep now bypass prepare rows | selectBlobs prepare rows =>
    simp only [exec] at h
    split at h
    · split at h <;> cases h <;> rw [hconn]
      · exact Done.idle _ (by rintro _ ⟨⟩; rfl)
      · exact Done.idle _ nofun
    · cases h
  | unlink clock ok =>
    obtain ⟨sys, -, hs⟩ := Option.map_eq_some_iff.mp h
    cases hs
    rw [hconn]
    exact Done.idle _ nofun
  | sweepEnd now | restore docIds | restoreEnd =>
    simp only [exec] at h
    split at h <;> cases h
    rw [hconn]
    exact Done.idle _ nofun

/-! ## Exact counts -/

/-- Every cached count is the number of active references; the triple is the primary key of `content_refs`. -/
structure Exact (t : Tables) : Prop where
  keyed : Keyed ContentRef.key t.refs
  count : ∀ f ∈ t.files, f.refCount = activeRefs f.fileHash t.refs

def isActive (t : Tables) (fileHash nsId docId : String) : Bool := t.refs.any (isActiveRef fileHash nsId docId)

theorem isActiveRef_iff {r : ContentRef} :
    isActiveRef fileHash nsId docId r = true ↔ r.key = (fileHash, nsId, docId) ∧ r.status = .active := by
  simp [isActiveRef]

theorem key_fileHash {r : ContentRef} (h : r.key = (fileHash, nsId, docId)) : r.fileHash = fileHash :=
  congrArg Prod.fst h

variable {refs : List ContentRef}

theorem activeRef_unique (hkey : Keyed ContentRef.key refs) {r : ContentRef} (hr : r ∈ refs)
    (hact : isActiveRef fileHash nsId docId r = true) :
    ∀ r' ∈ refs, isActiveRef fileHash nsId docId r' = true ↔ r' = r := by
  intro r' hr'
  constructor
  · intro h
    exact hkey.eq_of_key hr' hr ((isActiveRef_iff.mp h).1.trans (isActiveRef_iff.mp hact).1.symm)
  · rintro rfl
    exact hact

theorem upsertRef_cases (fileHash nsId docId : String) (refs : List ContentRef) :
    upsertRef fileHash nsId docId refs = refs ++ [⟨fileHash, nsId, docId, .active⟩] ∨
    (∃ r ∈ refs, r.key = (fileHash, nsId, docId)) ∧ upsertRef fileHash nsId docId refs =
      updateWhere (fun r => r.key == (fileHash, nsId, docId)) (fun r => { r with status := .active }) refs := by
  unfold upsertRef
  split
  · rename_i hins
    exact Or.inl (insertRow_eq_some.mp hins).2
  · rename_i hins
    exact Or.inr ⟨insertRow_eq_none.mp hins, rfl⟩

theorem activeRefs_upsertRef (hkey : Keyed ContentRef.key refs)
    (hinact : refs.any (isActiveRef fileHash nsId docId) = false) (h : String) :
    activeRefs h (upsertRef fileHash nsId docId refs) = activeRefs h refs + if h = fileHash then 1 else 0 := by
  rcases upsertRef_cases fileHash nsId docId refs with hnew | ⟨⟨r, hr, hrk⟩, hup⟩
  · rw [hnew]
    unfold activeRefs changes
    rw [List.countP_append, List.countP_singleton]
    by_cases hh : h = fileHash
    · simp [hh]
    · simp [hh, Ne.symm hh]
  · rw [hup]
    have hrst : r.status ≠ .active := fun hst => List.any_eq_false.mp hinact r hr (isActiveRef_iff.mpr ⟨hrk, hst⟩)
    have hone := changes_updateWhere_one (q := fun x => x.fileHash == h && x.status == .active)
      (f := fun x : ContentRef => { x with status := .active })
      (p := fun x => x.key == (fileHash, nsId, docId)) hkey.nodup hr (by
        intro r' hr'
        rw [beq_iff_eq]
        constructor
        · intro hk
          exact hkey.eq_of_key hr' hr (hk.trans hrk.symm)
        · rintro rfl
          exact hrk)
    have hfile := key_fileHash hrk
    unfold activeRefs
    by_cases hh : h = fileHash
    · simp [hrst, hfile, hh] at hone ⊢
      omega
    · simp [hrst, hfile, hh, Ne.symm hh] at hone ⊢
      omega

theorem activeRefs_softDeleteRef (hkey : Keyed ContentRef.key refs)
    (hact : refs.any (isActiveRef fileHash nsId docId) = true) (h : String) :
    activeRefs h (softDeleteRef fileHash nsId docId refs) + (if h = fileHash then 1 else 0) = activeRefs h refs := by
  obtain ⟨r, hr, hra⟩ := List.any_eq_true.mp hact
  have hone := changes_updateWhere_one (q := fun x => x.fileHash == h && x.status == .active)
    (f := fun x : ContentRef => { x with status := .deleted }) hkey.nodup hr (activeRef_unique hkey hr hra)
  obtain ⟨hrk, hst⟩ := isActiveRef_iff.mp hra
  have hfile := key_fileHash hrk
  unfold activeRefs softDeleteRef
  by_cases hh : h = fileHash
  · simp [hst, hfile, hh] at hone ⊢
    omega
  · simp [hst, hfile, hh, Ne.symm hh] at hone ⊢
    omega

theorem activeRefs_reactivateRefs {h : String} (hne : h ≠ fileHash) :
    activeRefs h (reactivateRefs fileHash docId refs) = activeRefs h refs := by
  apply changes_updateWhere
  intro r _ hp
  simp only [Bool.and_eq_true, beq_iff_eq] at hp
  have hfile : (r.fileHash == h) = false := by
    rw [hp.1.1, beq_eq_false_iff_ne]
    exact Ne.symm hne
  simp [hfile]

theorem keyed_upsertRef (hkey : Keyed ContentRef.key refs) :
    Keyed ContentRef.key (upsertRef fileHash nsId docId refs) := by
  unfold upsertRef
  split
  · rename_i hins
    exact hkey.insertRow hins
  · exact hkey.updateWhere fun _ _ => rfl

theorem Exact.addRefCount {n : Int} (hi : Exact t) (hkey : Keyed ContentRef.key refs)
    (hrefs : ∀ h, (activeRefs h refs : Int) = activeRefs h t.refs + if h = fileHash then n else 0) :
    Exact { t with refs := refs, files := addRefCount fileHash n t.files } := by
  refine ⟨hkey, ?_⟩
  intro f' hf'
  obtain ⟨f, hf, rfl⟩ := mem_updateWhere.mp hf'
  have hcount := hi.count f hf
  show _ = (activeRefs _ refs : Int)
  by_cases hh : f.fileHash = fileHash
  · simp only [hh, beq_self_eq_true, if_true]
    rw [hrefs, if_pos rfl, hcount, hh]
  · simp only [beq_iff_eq, hh, if_false]
    rw [hrefs, if_neg hh, hcount, Int.add_zero]

theorem Exact.incrementRef (hi : Exact t) : Exact (incrementRef fileHash nsId docId t) := by
  unfold Catalog.incrementRef
  split
  · exact hi
  · rename_i hinact
    apply hi.addRefCount (keyed_upsertRef hi.keyed)
    intro h
    rw [activeRefs_upsertRef hi.keyed (Bool.eq_false_iff.mpr hinact)]
    split <;> simp

theorem Exact.positive (hi : Exact t) (hact : t.refs.any (isActiveRef fileHash nsId docId) = true) {f : FileLocation}
    (hl : lookup FileLocation.fileHash fileHash t.files = some f) : 0 < f.refCount := by
  obtain ⟨hf, hfh⟩ := lookup_eq_some hl
  have hsub := activeRefs_softDeleteRef hi.keyed hact fileHash
  rw [if_pos rfl] at hsub
  rw [hi.count f hf, hfh]
  omega

theorem Exact.decrementRef (hi : Exact t) (hd : decrementRef fileHash nsId docId t = some t') : Exact t' := by
  by_cases hact : t.refs.any (isActiveRef fileHash nsId docId) = true
  · rw [decrementRef_active hact fun f => hi.positive hact] at hd
    cases hd
    apply hi.addRefCount
    · exact hi.keyed.updateWhere fun _ _ => rfl
    · intro h
      rw [← activeRefs_softDeleteRef hi.keyed hact h]
      split <;> simp
  · rw [Catalog.decrementRef, if_neg hact] at hd
    cases hd
    exact hi

theorem Exact.restoreRefs (hi : Exact t) : Exact (restoreRefs fileHash docId t) := by
  refine ⟨hi.keyed.updateWhere fun _ _ => rfl, ?_⟩
  intro f' hf'
  obtain ⟨f, hf, rfl⟩ := mem_updateWhere.mp hf'
  show _ = (activeRefs _ (reactivateRefs fileHash docId t.refs) : Int)
  by_cases hh : f.fileHash = fileHash
  · simp [hh]
  · simp only [beq_iff_eq, hh, if_false]
    rw [activeRefs_reactivateRefs hh, hi.count f hf]

theorem Exact.hardDelete (hi : Exact t) (cand : Cand) (queuedAt eligibleAt : Int) :
    Exact (hardDelete cand queuedAt eligibleAt t) := by
  refine ⟨hi.keyed.deleteWhere, ?_⟩
  intro f hf
  have hmem := (mem_deleteWhere.mp hf).1
  rw [hi.count f hmem]
  show _ = (activeRefs _ (deleteWhere _ t.refs) : Int)
  unfold activeRefs
  rw [changes_deleteWhere]
  intro r _ hr
  simp only [Bool.and_eq_true, beq_iff_eq] at hr
  simp [hr.2]

theorem Commits.exact (hc : Commits t a t') (hi : Exact t) : Exact t' := by
  rcases hc with _ | _ | hd | _ | _ | _
  · exact hi
  · exact hi.incrementRef
  · exact hi.decrementRef hd
  · exact hi.hardDelete _ _ _
  · exact ⟨hi.keyed, hi.count⟩
  · exact hi.restoreRefs

/-! ## Runs -/

/-- Between two transactions: no transaction is open and the counts are exact. -/
structure Settled (s : TxnState) : Prop where
  closed : s.conn.saved = none
  exact : Exact s.tables

theorem Settled.conn (hi : Settled s) : s.conn = ⟨s.tables, none⟩ := by
  rw [← hi.closed]
  rfl

theorem Settled.done (hi : Settled s) (hst : Steered s a) (h : exec cfg s a = some (s', f)) :
    Done s.tables a s'.conn f :=
  done_of_exec hi.conn hst (fun _ _ _ hact _ hl => hi.exact.positive hact hl) h

theorem Settled.doneStep (hi : Settled s) (hst : Steered s a) (h : txnStep cfg s a = some s') :
    ∃ f, Done s.tables a s'.conn f := by
  obtain ⟨⟨_, f⟩, hexec, rfl⟩ := Option.map_eq_some_iff.mp h
  exact ⟨f, hi.done hst hexec⟩

theorem Settled.step (hi : Settled s) (hst : Steered s a) (h : txnStep cfg s a = some s') : Settled s' := by
  obtain ⟨f, hdone⟩ := hi.doneStep hst h
  exact ⟨hdone.closed, hdone.commits.exact hi.exact⟩

theorem Settled.run {acts : List TxnAct} (hi : Settled s) (hst : Along (txnStep cfg) Steered s acts)
    (h : Lib.run (txnStep cfg) s acts = some s') : Settled s' :=
  run_inv (fun hi hst h => Settled.step hi hst h) hi hst h

/-! ## One reference -/

variable {h n d : String}

theorem isActive_iff : isActive t h n d = true ↔ ∃ r ∈ t.refs, r.key = (h, n, d) ∧ r.status = .active := by
  simp only [isActive, List.any_eq_true, isActiveRef_iff]

theorem refs_decrementRef (hd : decrementRef h n d t = some t') : t'.refs = softDeleteRef h n d t.refs := by
  unfold decrementRef at hd
  split at hd
  · split at hd
    · cases hd
    · split at hd <;> cases hd <;> rfl
  · rename_i hinact
    cases hd
    exact (softDeleteRef_of_inactive (Bool.eq_false_iff.mpr hinact)).symm

theorem isActive_incrementRef : isActive (incrementRef h n d t) h n d = true := by
  unfold incrementRef
  split
  · rename_i hact
    exact hact
  · rw [isActive_iff]
    show ∃ r ∈ upsertRef h n d t.refs, _
    rcases upsertRef_cases h n d t.refs with hnew | ⟨⟨r, hr, hk⟩, hup⟩
    · rw [hnew]
      exact ⟨_, List.mem_append_right _ (List.mem_singleton_self _), rfl, rfl⟩
    · rw [hup]
      refine ⟨_, mem_updateWhere_of_mem hr, ?_⟩
      rw [if_pos (by simpa using hk)]
      exact ⟨hk, rfl⟩

theorem isActive_decrementRef (hd : decrementRef h n d t = some t') : isActive t' h n d = false := by
  unfold isActive
  rw [refs_decrementRef hd, List.any_eq_false]
  intro r' hr' hact
  obtain ⟨r, -, rfl⟩ := mem_updateWhere.mp hr'
  by_cases hp : isActiveRef h n d r = true
  · rw [if_pos hp] at hact
    exact absurd (isActiveRef_iff.mp hact).2 nofun
  · rw [if_neg hp] at hact
    exact hp hact

theorem active_updateWhere {p : ContentRef → Bool} {g : ContentRef → ContentRef}
    (hg : ∀ r, r.key = (h, n, d) → r.status = .active → p r = true → (g r).key = r.key ∧ (g r).status = .active)
    (hact : ∃ r ∈ refs, r.key = (h, n, d) ∧ r.status = .active) :
    ∃ r ∈ updateWhere p g refs, r.key = (h, n, d) ∧ r.status = .active := by
  obtain ⟨r, hr, hk, hst⟩ := hact
  refine ⟨_, mem_updateWhere_of_mem hr, ?_⟩
  by_cases hp : p r = true
  · obtain ⟨hk', hst'⟩ := hg r hk hst hp
    rw [if_pos hp]
    exact ⟨hk'.trans hk, hst'⟩
  · rw [if_neg hp]
    exact ⟨hk, hst⟩

/-- Only a decrement of the triple takes its active reference away. -/
theorem Commits.active (hc : Commits t a t') (hne : ∀ o, a ≠ .decrement h n d o) (hact : isActive t h n d = true) :
    isActive t' h n d = true := by
  rw [isActive_iff] at hact ⊢
  rcases hc with _ | ⟨h', n', d', o⟩ | hd | ⟨_, _, _, _, cand, _⟩ | _ | ⟨_, h', d'⟩
  · exact hact
  · unfold incrementRef
    split
    · exact hact
    · show ∃ r ∈ upsertRef h' n' d' t.refs, _
      rcases upsertRef_cases h' n' d' t.refs with hnew | ⟨-, hup⟩
      · obtain ⟨r, hr, hr'⟩ := hact
        rw [hnew]
        exact ⟨r, List.mem_append_left _ hr, hr'⟩
      · rw [hup]
        exact active_updateWhere (fun _ _ _ _ => ⟨rfl, rfl⟩) hact
  · rename_i h' n' d' o
    rw [refs_decrementRef hd]
    apply active_updateWhere _ hact
    intro r hk _ hp
    have hk' := (isActiveRef_iff.mp hp).1
    rw [hk] at hk'
    cases hk'
    exact absurd rfl (hne o)
  · obtain ⟨r, hr, hk, hst⟩ := hact
    exact ⟨r, mem_deleteWhere.mpr ⟨hr, by simp [hst]⟩, hk, hst⟩
  · exact hact
  · exact active_updateWhere (fun _ _ _ _ => ⟨rfl, rfl⟩) hact

/-- An inactive reference is made active by an increment of the triple or by a restore only. -/
theorem Commits.inactive (hc : Commits t a t') (hne : ∀ o, a ≠ .increment h n d o) (hres : ∀ o, a ≠ .restoreRefs o)
    (hinact : isActive t h n d = false) : isActive t' h n d = false := by
  rw [Bool.eq_false_iff] at hinact ⊢
  intro hact
  apply hinact
  rw [isActive_iff] at hact ⊢
  obtain ⟨r', hr', hk, hst⟩ := hact
  rcases hc with _ | ⟨h', n', d', o⟩ | hd | _ | _ | ⟨o, _, _⟩
  · exact ⟨r', hr', hk, hst⟩
  · -- the row the upsert writes is of another triple
    have hother : (h', n', d') ≠ (h, n, d) := by
      rintro ⟨⟩
      exact hne o rfl
    unfold incrementRef at hr'
    split at hr'
    · exact ⟨r', hr', hk, hst⟩
    · rcases upsertRef_cases h' n' d' t.refs with hnew | ⟨-, hup⟩
      · change r' ∈ upsertRef h' n' d' t.refs at hr'
        rw [hnew] at hr'
        rcases List.mem_append.mp hr' with hr' | hr'
        · exact ⟨r', hr', hk, hst⟩
        · rw [List.mem_singleton.mp hr'] at hk
          exact absurd hk hother
      · change r' ∈ upsertRef h' n' d' t.refs at hr'
        rw [hup] at hr'
        obtain ⟨r, hr, rfl⟩ := mem_updateWhere.mp hr'
        by_cases hp : (r.key == (h', n', d')) = true
        · rw [if_pos hp] at hk
          exact absurd ((beq_iff_eq.mp hp).symm.trans hk) hother
        · rw [if_neg hp] at hk hst
          exact ⟨r, hr, hk, hst⟩
  · rw [refs_decrementRef hd] at hr'
    obtain ⟨r, hr, rfl⟩ := mem_updateWhere.mp hr'
    split at hst
    · cases hst
    · rename_i hp
      rw [if_neg hp] at hk
      exact ⟨r, hr, hk, hst⟩
  · exact ⟨r', (mem_deleteWhere.mp hr').1, hk, hst⟩
  · exact ⟨r', hr', hk, hst⟩
  · exact absurd rfl (hres o)

theorem Settled.keeps {P : Tables → Prop} {A : TxnAct → Prop} {acts : List TxnAct} (hi : Settled s)
    (hkeep : ∀ {t a t'}, Commits t a t' → A a → P t → P t') (hA : ∀ a ∈ acts, A a)
    (hst : Along (txnStep cfg) Steered s acts) (hp : P s.tables) (h : Lib.run (txnStep cfg) s acts = some s') :
    P s'.tables := by
  have hallowed : Along (txnStep cfg) (fun _ a => A a) s acts :=
    along_iff_forall.mpr fun pre a t hpre _ => hA a (hpre.subset (by simp))
  have hboth : Settled s' ∧ P s'.tables := by
    refine run_inv (I := fun s => Settled s ∧ P s.tables) ?_ ⟨hi, hp⟩ (hst.and hallowed) h
    rintro u a u' ⟨hu, hpu⟩ ⟨hsta, ha⟩ hstep
    obtain ⟨f, hdone⟩ := hu.doneStep hsta hstep
    exact ⟨hu.step hsta hstep, hkeep hdone.commits ha hpu⟩
  exact hboth.2

theorem Commits.of_increment {o : IncrementOutcomes} (hc : Commits t (.increment h n d o) t') :
    t' = t ∨ t' = incrementRef h n d t := by
  rcases hc with _ | _
  · exact Or.inl rfl
  · exact Or.inr rfl

theorem Commits.of_decrement {o : DecrementOutcomes} (hc : Commits t (.decrement h n d o) t') :
    t' = t ∨ decrementRef h n d t = some t' := by
  rcases hc with _ | _ | hd
  · exact Or.inl rfl
  · exact Or.inr hd

theorem Commits.increment_active {o : IncrementOutcomes} (hc : Commits t (.increment h n d o) t')
    (hact : isActive t h n d = true) : t' = t := by
  rcases hc.of_increment with hsame | hinc
  · exact hsame
  · unfold isActive at hact
    rw [hinc, incrementRef, if_pos hact]

theorem Commits.decrement_inactive {o : DecrementOutcomes} (hc : Commits t (.decrement h n d o) t')
    (hinact : isActive t h n d = false) : t' = t := by
  rcases hc.of_decrement with hsame | hdec
  · exact hsame
  · unfold isActive at hinact
    rw [decrementRef, if_neg (Bool.eq_false_iff.mp hinact)] at hdec
    exact (Option.some.inj hdec).symm

section Repeated
variable {acts : List TxnAct} {s₁ s₂ s₃ : TxnState}

/-- What a call leaves and nothing between takes away, the same call finds when it comes again. -/
theorem Settled.once {P : Tables → Prop} {A : TxnAct → Prop} {a a' : TxnAct} (hi : Settled s)
    (hst : Along (txnStep cfg) Steered s (a :: (acts ++ [a']))) (h₁ : txnStep cfg s a = some s₁)
    (h₂ : Lib.run (txnStep cfg) s₁ acts = some s₂) (h₃ : txnStep cfg s₂ a' = some s₃)
    (hfirst : ∀ {t t'}, Commits t a t' → t' = t ∨ P t') (hkeep : ∀ {t b t'}, Commits t b t' → A b → P t → P t')
    (hagain : ∀ {t t'}, Commits t a' t' → P t → t' = t) (hA : ∀ b ∈ acts, A b) :
    s₁.tables = s.tables ∨ s₃.tables = s₂.tables := by
  obtain ⟨hst₁, hrest⟩ := along_cons.mp hst
  obtain ⟨hacts, hlast⟩ := along_append.mp (hrest s₁ h₁)
  have hi₁ := hi.step hst₁ h₁
  obtain ⟨f₁, hdone₁⟩ := hi.doneStep hst₁ h₁
  obtain ⟨f₃, hdone₃⟩ := (hi₁.run hacts h₂).doneStep (along_cons.mp (hlast s₂ h₂)).1 h₃
  refine (hfirst hdone₁.commits).imp_right fun hp => hagain hdone₃.commits ?_
  exact hi₁.keeps (P := P) hkeep hA hacts hp h₂

theorem Settled.increment_once {o o' : IncrementOutcomes} (hi : Settled s)
    (hst : Along (txnStep cfg) Steered s (.increment h n d o :: (acts ++ [.increment h n d o'])))
    (h₁ : txnStep cfg s (.increment h n d o) = some s₁) (h₂ : Lib.run (txnStep cfg) s₁ acts = some s₂)
    (h₃ : txnStep cfg s₂ (.increment h n d o') = some s₃) (hno : ∀ a ∈ acts, ∀ o, a ≠ .decrement h n d o) :
    s₁.tables = s.tables ∨ s₃.tables = s₂.tables := by
  refine hi.once (P := fun t => isActive t h n d = true) hst h₁ h₂ h₃ (fun hc => hc.of_increment.imp_right ?_)
    (fun hc ha hp => hc.active ha hp) (fun hc hp => hc.increment_active hp) hno
  rintro rfl
  exact isActive_incrementRef

theorem Settled.decrement_once {o o' : DecrementOutcomes} (hi : Settled s)
    (hst : Along (txnStep cfg) Steered s (.decrement h n d o :: (acts ++ [.decrement h n d o'])))
    (h₁ : txnStep cfg s (.decrement h n d o) = some s₁) (h₂ : Lib.run (txnStep cfg) s₁ acts = some s₂)
    (h₃ : txnStep cfg s₂ (.decrement h n d o') = some s₃)
    (hno : ∀ a ∈ acts, (∀ o, a ≠ .increment h n d o) ∧ ∀ o, a ≠ .restoreRefs o) :
    s₁.tables = s.tables ∨ s₃.tables = s₂.tables :=
  hi.once (P := fun t => isActive t h n d = false) hst h₁ h₂ h₃ (fun hc => hc.of_decrement.imp_right isActive_decrementRef)
    (fun hc ha hp => hc.inactive ha.1 ha.2 hp) (fun hc hp => hc.decrement_inactive hp) hno

end Repeated

/-! ## The cache over every run -/

/-- From tables with exact counts, after any transactions whose reads tell the truth: the counts are exact and not
negative; a further transaction that reports a failure changes no table and does not report a negative count; and of two
increments (decrements) of one triple, with nothing between them that undoes the first, one changes nothing. -/
theorem ref_count_exact (cfg : GcConfig) (t : Tables) (acts : List TxnAct) (s : TxnState)
    (hkey : Keyed ContentRef.key t.refs) (hcount : ∀ f ∈ t.files, f.refCount = activeRefs f.fileHash t.refs)
    (hsteered : Along (txnStep cfg) Steered (TxnState.init t) acts)
    (hrun : run (txnStep cfg) (TxnState.init t) acts = some s) :
    (∀ f ∈ s.tables.files, f.refCount = activeRefs f.fileHash s.tables.refs ∧ 0 ≤ f.refCount) ∧
    (∀ a s' e, Steered s a → exec cfg s a = some (s', some e) → s'.tables = s.tables ∧ e.isNegative = false) ∧
    (∀ fileHash nsId docId o o' mid s₁ s₂ s₃,
      Along (txnStep cfg) Steered s (.increment fileHash nsId docId o :: (mid ++ [.increment fileHash nsId docId o'])) →
      txnStep cfg s (.increment fileHash nsId docId o) = some s₁ → run (txnStep cfg) s₁ mid = some s₂ →
      txnStep cfg s₂ (.increment fileHash nsId docId o') = some s₃ →
      (∀ a ∈ mid, ∀ o, a ≠ .decrement fileHash nsId docId o) → s₁.tables = s.tables ∨ s₃.tables = s₂.tables) ∧
    (∀ fileHash nsId docId o o' mid s₁ s₂ s₃,
      Along (txnStep cfg) Steered s (.decrement fileHash nsId docId o :: (mid ++ [.decrement fileHash nsId docId o'])) →
      txnStep cfg s (.decrement fileHash nsId docId o) = some s₁ → run (txnStep cfg) s₁ mid = some s₂ →
      txnStep cfg s₂ (.decrement fileHash nsId docId o') = some s₃ →
      (∀ a ∈ mid, (∀ o, a ≠ .increment fileHash nsId docId o) ∧ ∀ o, a ≠ .restoreRefs o) →
      s₁.tables = s.tables ∨ s₃.tables = s₂.tables) := by
  have hinit : Settled (TxnState.init t) := ⟨rfl, hkey, hcount⟩
  have hi := hinit.run hsteered hrun
  refine ⟨?_, ?_, ?_, ?_⟩
  · intro f hf
    have hf' := hi.exact.count f hf
    exact ⟨hf', by omega⟩
  · intro a s' e hst hexec
    exact (hi.done hst hexec).failed e rfl
  · intro fileHash nsId docId o o' mid s₁ s₂ s₃ hst h₁ h₂ h₃ hno
    exact hi.increment_once hst h₁ h₂ h₃ hno
  · intro fileHash nsId docId o o' mid s₁ s₂ s₃ hst h₁ h₂ h₃ hno
    exact hi.decrement_once hst h₁ h₂ h₃ hno

/-! ## Runs on small tables -/

def sweepConfig : GcConfig := ⟨30, 90, 1000, 60, false⟩

def incremented : IncrementOutcomes := ⟨.ok, .good, .good, .good, .ok, .ok⟩

def decremented : DecrementOutcomes := ⟨.ok, .good, .good, .good, .ok, .ok, .good⟩

def hardDeleted : HardDeleteOutcomes := ⟨.ok, .good, .good, .good, .ok, .ok⟩

def referencedOnce : Tables :=
  ⟨[⟨"f", "blob-f", 1, .active, none⟩, ⟨"g", "blob-g", 0, .deleted, some 1⟩, ⟨"k", "blob-k", 0, .deleted, some 1⟩],
    [⟨"f", "ns", "d", .active⟩, ⟨"g", "ns", "d2", .deleted⟩], []⟩

/-- A second document refers to the file, an upsert of a third fails, the first reference goes, and a sweep deletes the
file that nothing refers to. -/
def ordinary : List TxnAct :=
  [.increment "f" "ns" "e" incremented,
   .increment "f" "ns" "x" { incremented with upsert := ⟨none, .aborted⟩ },
   .decrement "f" "ns" "d" decremented,
   .sweep 10 true none 9, .hardDelete 10 10 10 hardDeleted]

theorem ref_count_exact_ordinary : ∃ s, run (txnStep sweepConfig) (TxnState.init referencedOnce) ordinary = some s ∧
    s.tables.refs ≠ referencedOnce.refs ∧
    ∀ f ∈ s.tables.files, f.refCount = activeRefs f.fileHash s.tables.refs ∧ 0 ≤ f.refCount := by
  refine ⟨_, rfl, by decide, ?_⟩
  exact (ref_count_exact sweepConfig referencedOnce ordinary _ (by decide) (by decide) (by decide)
    rfl).1

/-- What the counts lose: a sweep reports the error of its second file with the first one gone; and a read that fails
where its result steers a write is taken for an answer. The probe of `IncrementRef` counts an active reference again, the
count read of `DecrementRef` leaves the count of a reference that is gone, and its last read reports an error for a
decrement that was committed. -/
theorem ref_count_drifts :
    (∀ f ∈ referencedOnce.files, f.refCount = activeRefs f.fileHash referencedOnce.refs) ∧
    (∃ s s' e, run (txnStep sweepConfig) (TxnState.init referencedOnce)
        [.sweep 10 true none 9, .hardDelete 10 10 10 hardDeleted] = some s ∧
      exec sweepConfig s (.hardDelete 10 10 10 { hardDeleted with start := .failed }) = some (s', some (.sweep e)) ∧
      s'.tables.files ≠ referencedOnce.files ∧ s'.tables.refs ≠ referencedOnce.refs) ∧
    (∃ s, run (txnStep sweepConfig) (TxnState.init referencedOnce)
        [.increment "f" "ns" "d" { incremented with probe := ⟨none, .failed⟩ }] = some s ∧
      ∃ f ∈ s.tables.files, f.refCount = 2 ∧ activeRefs f.fileHash s.tables.refs = 1) ∧
    (∃ s, run (txnStep sweepConfig) (TxnState.init referencedOnce)
        [.decrement "f" "ns" "d" { decremented with current := ⟨none, .failed⟩ }] = some s ∧
      ∃ f ∈ s.tables.files, f.refCount = 1 ∧ activeRefs f.fileHash s.tables.refs = 0) ∧
    (∃ s e, exec sweepConfig (TxnState.init referencedOnce)
        (.decrement "f" "ns" "d" { decremented with getCount := ⟨some "out of memory", .ok⟩ }) =
          some (s, some (.catalog e)) ∧
      s.tables.files ≠ referencedOnce.files) := by
  refine ⟨by decide, ⟨_, _, _, rfl, rfl, by decide, by decide⟩, ⟨_, rfl, by decide⟩, ⟨_, rfl, by decide⟩,
    ⟨_, _, rfl, by decide⟩⟩

end Cortrix.Catalog
