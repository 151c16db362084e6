import Cortrix.Store.CoordinatorSteps

/-!
# The document locks of the coordinator

`active_docs_` keeps a second writer off a document. `Locks` ties it to the transaction table and to the
calls in flight: an entry belongs to a PENDING transaction, or to a `Commit` or `Rollback` that has not
released it yet.

* `locked_doc_writable` : in runs of `Orderly` steps a locked document always has a transaction that can be finalized;
  `doc_locked_forever` : a failed ROLLBACK append leaves the lock behind.
-/

namespace Cortrix.Store.WriteCoordinator
open Lib

namespace Call

/-- A `BeginWrite` whose PENDING record is not acknowledged: its transaction and document. -/
def opening : Call → Option (UInt64 × Bytes)
  | .beginAppend e | .beginUndo e _ => some (e.txnId, e.docId)
  | _ => none

/-- A `Commit` or `Rollback` that still holds its document. -/
def closing : Call → Option (UInt64 × Bytes)
  | .commitAppend e orig _ | .commitFail e orig _ | .commitRelease e orig | .rollbackAppend e orig
  | .rollbackRelease e orig => some (e.txnId, orig.docId)
  | _ => none

/-- A `Commit` or `Rollback` in flight. -/
def finalizing : Call → Bool
  | .beginAppend _ | .beginUndo .. => false
  | _ => true

end Call

def PendingOn (t : Tables) (txn : UInt64) (docId : Bytes) : Prop :=
  ∃ st, t.activeTxns txn = some st ∧ st.state = .pending ∧ st.docId = docId

/-- `opens tid` and `closes tid` are what the call in slot `tid` is opening or closing. -/
structure Locks (t : Tables) (opens closes : Nat → Option (UInt64 × Bytes)) : Prop where
  docs : ∀ {d txn}, t.activeDocs d = some txn → PendingOn t txn d ∨ ∃ tid, closes tid = some (txn, d)
  pending : ∀ {d txn}, PendingOn t txn d → t.activeDocs d = some txn
  opening : ∀ {tid txn d}, opens tid = some (txn, d) → PendingOn t txn d
  closing : ∀ {tid txn d}, closes tid = some (txn, d) →
    d ≠ [] ∧ t.activeDocs d = some txn ∧ ∀ d', ¬ PendingOn t txn d'
  openingUnique : ∀ {tid tid' txn d d'}, opens tid = some (txn, d) → opens tid' = some (txn, d') → tid = tid'
  closingUnique : ∀ {tid tid' txn d d'}, closes tid = some (txn, d) → closes tid' = some (txn, d') → tid = tid'
  fresh : ∀ {txn st}, t.activeTxns txn = some st → txn < t.nextTxnId
  freshClosing : ∀ {tid txn d}, closes tid = some (txn, d) → txn < t.nextTxnId

theorem PendingOn.doc_eq {t : Tables} {txn : UInt64} {d d' : Bytes} (h : PendingOn t txn d)
    (h' : PendingOn t txn d') : d = d' := by
  obtain ⟨st, hst, -, rfl⟩ := h
  obtain ⟨st', hst', -, rfl⟩ := h'
  rw [hst] at hst'
  cases hst'
  rfl

namespace Locks
variable {t : Tables} {opens closes : Nat → Option (UInt64 × Bytes)} {tid : Nat} {txn : UInt64} {d : Bytes}

theorem init (next : UInt64) : Locks { nextTxnId := next } (fun _ => none) (fun _ => none) := by
  constructor <;> simp [PendingOn]

theorem pending_unique (h : Locks t opens closes) {txn' : UInt64} (hp : PendingOn t txn d)
    (hp' : PendingOn t txn' d) : txn = txn' := by
  have h1 := h.pending hp
  have h2 := h.pending hp'
  rw [h1] at h2
  exact Option.some.inj h2

theorem of_tables_eq (h : Locks t opens closes) {t' : Tables} (hnext : t'.nextTxnId = t.nextTxnId)
    (htxns : t'.activeTxns = t.activeTxns) (hdocs : t'.activeDocs = t.activeDocs) : Locks t' opens closes := by
  have hp : ∀ {txn d}, PendingOn t' txn d ↔ PendingOn t txn d := by simp [PendingOn, htxns]
  constructor
  · intro d txn hd
    rw [hp]
    exact h.docs (hdocs ▸ hd)
  · intro d txn hd
    rw [hdocs]
    exact h.pending (hp.mp hd)
  · exact fun ho => hp.mpr (h.opening ho)
  · intro tid txn d hc
    obtain ⟨hne, hd, hnot⟩ := h.closing hc
    exact ⟨hne, hdocs ▸ hd, fun d' hd' => hnot d' (hp.mp hd')⟩
  · exact h.openingUnique
  · exact h.closingUnique
  · intro txn st hst
    rw [hnext]
    exact h.fresh (htxns ▸ hst)
  · intro tid txn d hc
    rw [hnext]
    exact h.freshClosing hc

theorem reserve (h : Locks t opens closes) {blockIds : List UInt64} {scope : PendingEntry.Scope} {t' : Tables}
    (hres : t.reserve d blockIds scope = .ok (txn, t')) (hnowrap : t.nextTxnId.toNat + 1 < 2 ^ 64) :
    Locks t' (Function.update opens tid (some (txn, d))) closes := by
  obtain ⟨hfree, rfl, ht'⟩ := reserve_ok hres
  have hlt := lt_succ_of_noWrap hnowrap
  have hnext : t'.nextTxnId = t.nextTxnId + 1 := by rw [ht']
  have hdocs : ∀ e, t'.activeDocs e = if e = d then some t.nextTxnId else t.activeDocs e := by
    intro e
    rw [ht']
    exact Function.update_apply ..
  have htxns : ∀ x, t'.activeTxns x =
      if x = t.nextTxnId then some ⟨.pending, d, blockIds, scope⟩ else t.activeTxns x := by
    intro x
    rw [ht']
    exact Function.update_apply ..
  have hnew : ∀ {x e}, PendingOn t x e → x ≠ t.nextTxnId := by
    rintro x e ⟨st, hst, -⟩ rfl
    exact absurd (h.fresh hst) (UInt64.lt_irrefl _)
  have hp : ∀ {x e}, PendingOn t' x e ↔ x = t.nextTxnId ∧ e = d ∨ PendingOn t x e := by
    intro x e
    by_cases hx : x = t.nextTxnId
    · have hnot : ¬ PendingOn t x e := fun hpe => hnew hpe hx
      simp only [hx, true_and] at hnot ⊢
      simp only [hnot, or_false]
      simp [PendingOn, htxns, eq_comm]
    · simp [PendingOn, htxns, hx]
  constructor
  · intro e x he
    rw [hdocs] at he
    rw [hp]
    split at he
    · rename_i hed
      cases he
      exact Or.inl (Or.inl ⟨rfl, hed⟩)
    · exact (h.docs he).imp Or.inr id
  · intro e x hpe
    rw [hdocs]
    rcases hp.mp hpe with ⟨rfl, rfl⟩ | hpe
    · exact if_pos rfl
    · rw [if_neg, h.pending hpe]
      rintro rfl
      rw [h.pending hpe] at hfree
      cases hfree
  · intro tid' x e ho
    rw [Function.update_apply] at ho
    rw [hp]
    split at ho
    · cases ho
      exact Or.inl ⟨rfl, rfl⟩
    · exact Or.inr (h.opening ho)
  · intro tid' x e hc
    obtain ⟨hne, hd, hnot⟩ := h.closing hc
    refine ⟨hne, ?_, fun e' hpe => ?_⟩
    · rw [hdocs, if_neg, hd]
      rintro rfl
      rw [hd] at hfree
      cases hfree
    · rcases hp.mp hpe with ⟨rfl, -⟩ | hpe
      · exact absurd (h.freshClosing hc) (UInt64.lt_irrefl _)
      · exact hnot e' hpe
  · -- no other call opens the transaction just allocated
    intro tid₁ tid₂ x e e' h₁ h₂
    rw [Function.update_apply] at h₁ h₂
    split at h₁ <;> split at h₂
    · rename_i ht₁ ht₂
      rw [ht₁, ht₂]
    · cases h₁
      exact absurd rfl (hnew (h.opening h₂))
    · cases h₂
      exact absurd rfl (hnew (h.opening h₁))
    · exact h.openingUnique h₁ h₂
  · exact h.closingUnique
  · intro x st hst
    rw [htxns] at hst
    rw [hnext]
    split at hst
    · rename_i hx
      rw [hx]
      exact hlt
    · exact UInt64.lt_trans (h.fresh hst) hlt
  · intro tid' x e hc
    rw [hnext]
    exact UInt64.lt_trans (h.freshClosing hc) hlt

theorem opened (h : Locks t opens closes) : Locks t (Function.update opens tid none) closes := by
  exact { h with
    opening := fun h' => h.opening (update_none_mem h').2
    openingUnique := fun h₁ h₂ => h.openingUnique (update_none_mem h₁).2 (update_none_mem h₂).2 }

theorem undo (h : Locks t opens closes) (ho : opens tid = some (txn, d)) :
    Locks (t.undo txn d) (Function.update opens tid none) closes := by
  have hown := h.opening ho
  have hdocs : ∀ e, (t.undo txn d).activeDocs e = if e = d then none else t.activeDocs e :=
    fun e => Function.update_apply ..
  have htxns : ∀ x, (t.undo txn d).activeTxns x = if x = txn then none else t.activeTxns x :=
    fun x => Function.update_apply ..
  have hp : ∀ {x e}, PendingOn (t.undo txn d) x e ↔ x ≠ txn ∧ PendingOn t x e := by
    intro x e
    by_cases hx : x = txn <;> simp [PendingOn, htxns, hx]
  constructor
  · intro e x he
    rw [hdocs] at he
    split at he
    · cases he
    · rename_i hed
      refine (h.docs he).imp (fun hpe => hp.mpr ⟨?_, hpe⟩) id
      rintro rfl
      exact hed (hpe.doc_eq hown)
  · intro e x hpe
    obtain ⟨hx, hold⟩ := hp.mp hpe
    rw [hdocs, if_neg, h.pending hold]
    rintro rfl
    exact hx (h.pending_unique hold hown)
  · intro tid' x e ho'
    obtain ⟨ht, ho'⟩ := update_none_mem ho'
    refine hp.mpr ⟨?_, h.opening ho'⟩
    rintro rfl
    exact ht (h.openingUnique ho' ho)
  · intro tid' x e hc
    obtain ⟨hne, hd, hnot⟩ := h.closing hc
    refine ⟨hne, ?_, fun e' hpe => hnot e' (hp.mp hpe).2⟩
    rw [hdocs, if_neg, hd]
    rintro rfl
    rw [h.pending hown] at hd
    cases hd
    exact hnot _ hown
  · exact fun h₁ h₂ => h.openingUnique (update_none_mem h₁).2 (update_none_mem h₂).2
  · exact h.closingUnique
  · intro x st hst
    rw [htxns] at hst
    split at hst
    · cases hst
    · exact h.fresh hst
  · exact h.freshClosing

theorem mark (h : Locks t opens closes) {new : PendingEntry.State} (hnew : new ≠ .pending) {orig : TxnState}
    {t' : Tables} (hmark : t.checkAndMarkFinalizing txn new = .ok (orig, t')) (hne : orig.docId ≠ [])
    (hhandle : ∀ tid d, opens tid ≠ some (txn, d)) (hfree : closes tid = none) :
    Locks t' opens (Function.update closes tid (some (txn, orig.docId))) := by
  obtain ⟨hst, hpend, ht'⟩ := checkAndMark_ok hmark
  have hown : PendingOn t txn orig.docId := ⟨orig, hst, hpend, rfl⟩
  have hdocs : t'.activeDocs = t.activeDocs := by rw [ht']
  have hnext : t'.nextTxnId = t.nextTxnId := by rw [ht']
  have htxns : ∀ x, t'.activeTxns x =
      if x = txn then some { orig with state := new, blockIds := [] } else t.activeTxns x := by
    intro x
    rw [ht']
    exact Function.update_apply ..
  have hp : ∀ {x e}, PendingOn t' x e ↔ x ≠ txn ∧ PendingOn t x e := by
    intro x e
    by_cases hx : x = txn <;> simp [PendingOn, htxns, hx, hnew]
  have hcloses : ∀ {tid' p}, Function.update closes tid (some (txn, orig.docId)) tid' = some p →
      tid' = tid ∧ p = (txn, orig.docId) ∨ closes tid' = some p := by
    intro tid' p hc
    rcases update_mem hc with ⟨ht, hv⟩ | ⟨-, hc⟩
    · exact Or.inl ⟨ht, (Option.some.inj hv).symm⟩
    · exact Or.inr hc
  -- no other call closes a transaction that was PENDING until now
  have hother : ∀ {tid' e}, closes tid' ≠ some (txn, e) := fun hc => (h.closing hc).2.2 _ hown
  constructor
  · intro e x he
    rw [hdocs] at he
    rcases h.docs he with hpe | ⟨tid', hc⟩
    · by_cases hx : x = txn
      · subst hx
        refine Or.inr ⟨tid, ?_⟩
        rw [Function.update_self, hpe.doc_eq hown]
      · exact Or.inl (hp.mpr ⟨hx, hpe⟩)
    · refine Or.inr ⟨tid', ?_⟩
      rw [Function.update_of_ne, hc]
      rintro rfl
      rw [hfree] at hc
      cases hc
  · intro e x hpe
    rw [hdocs]
    exact h.pending (hp.mp hpe).2
  · intro tid' x e ho
    refine hp.mpr ⟨?_, h.opening ho⟩
    rintro rfl
    exact hhandle _ _ ho
  · intro tid' x e hc
    rw [hdocs]
    rcases hcloses hc with ⟨-, heq⟩ | hc
    · cases heq
      exact ⟨hne, h.pending hown, fun e' hpe => (hp.mp hpe).1 rfl⟩
    · obtain ⟨hne', hd, hnot⟩ := h.closing hc
      exact ⟨hne', hd, fun e' hpe => hnot e' (hp.mp hpe).2⟩
  · exact h.openingUnique
  · intro tid₁ tid₂ x e e' h₁ h₂
    rcases hcloses h₁ with ⟨ht₁, heq₁⟩ | hold₁ <;> rcases hcloses h₂ with ⟨ht₂, heq₂⟩ | hold₂
    · rw [ht₁, ht₂]
    · cases heq₁
      exact absurd hold₂ hother
    · cases heq₂
      exact absurd hold₁ hother
    · exact h.closingUnique hold₁ hold₂
  · intro x st' hst'
    rw [htxns] at hst'
    rw [hnext]
    split at hst'
    · rename_i hx
      rw [hx]
      exact h.fresh hst
    · exact h.fresh hst'
  · intro tid' x e hc
    rw [hnext]
    rcases hcloses hc with ⟨-, heq⟩ | hc
    · cases heq
      exact h.fresh hst
    · exact h.freshClosing hc

theorem release (h : Locks t opens closes) (hc : closes tid = some (txn, d)) :
    Locks (t.releaseDoc d) opens (Function.update closes tid none) := by
  obtain ⟨hne, hlock, hnot⟩ := h.closing hc
  have hrel : t.releaseDoc d = { t with activeDocs := Function.update t.activeDocs d none } := by
    rw [Tables.releaseDoc, if_neg (by simpa using hne)]
  have hdocs : ∀ e, (t.releaseDoc d).activeDocs e = if e = d then none else t.activeDocs e := by
    intro e
    rw [hrel]
    exact Function.update_apply ..
  have hp : ∀ {x e}, PendingOn (t.releaseDoc d) x e ↔ PendingOn t x e := by
    intro x e
    rw [hrel]
    exact Iff.rfl
  constructor
  · intro e x he
    rw [hdocs] at he
    rw [hp]
    split at he
    · cases he
    · rename_i hed
      rcases h.docs he with hpe | ⟨tid', hc'⟩
      · exact Or.inl hpe
      · refine Or.inr ⟨tid', ?_⟩
        rw [Function.update_of_ne, hc']
        rintro rfl
        rw [hc] at hc'
        cases hc'
        exact hed rfl
  · intro e x hpe
    rw [hp] at hpe
    rw [hdocs, if_neg, h.pending hpe]
    rintro rfl
    rw [h.pending hpe] at hlock
    cases hlock
    exact hnot _ hpe
  · exact fun ho => hp.mpr (h.opening ho)
  · intro tid' x e hc'
    obtain ⟨ht, hc'⟩ := update_none_mem hc'
    obtain ⟨hne', hd', hnot'⟩ := h.closing hc'
    refine ⟨hne', ?_, fun e' hpe => hnot' e' (hp.mp hpe)⟩
    rw [hdocs, if_neg, hd']
    rintro rfl
    rw [hlock] at hd'
    cases hd'
    exact ht (h.closingUnique hc' hc)
  · exact h.openingUnique
  · exact fun h₁ h₂ => h.closingUnique (update_none_mem h₁).2 (update_none_mem h₂).2
  · intro x st hst
    rw [hrel] at hst ⊢
    exact h.fresh hst
  · intro tid' x e hc'
    rw [hrel]
    exact h.freshClosing (update_none_mem hc').2

theorem sweep (h : Locks t opens closes) : Locks t.sweep opens closes := by
  have hp : ∀ {x e}, PendingOn t.sweep x e ↔ PendingOn t x e := by
    intro x e
    simp only [PendingOn, Tables.sweep, Option.filter_eq_some_iff, beq_iff_eq]
    constructor
    · rintro ⟨st, ⟨hst, -⟩, hpe⟩
      exact ⟨st, hst, hpe⟩
    · rintro ⟨st, hst, hpe⟩
      exact ⟨st, ⟨hst, hpe.1⟩, hpe⟩
  constructor
  · exact fun he => (h.docs he).imp hp.mpr id
  · exact fun hpe => h.pending (hp.mp hpe)
  · exact fun ho => hp.mpr (h.opening ho)
  · intro tid' x e hc
    obtain ⟨hne, hd, hnot⟩ := h.closing hc
    exact ⟨hne, hd, fun e' hpe => hnot e' (hp.mp hpe)⟩
  · exact h.openingUnique
  · exact h.closingUnique
  · intro x st hst
    exact h.fresh (Option.filter_eq_some_iff.mp hst).1
  · exact h.freshClosing

end Locks

/-! ## Every orderly step keeps the locks -/

def opens (s : State) (tid : Nat) : Option (UInt64 × Bytes) := (s.calls tid).bind Call.opening

def closes (s : State) (tid : Nat) : Option (UInt64 × Bytes) := (s.calls tid).bind Call.closing

def Locked (s : State) : Prop := Locks s.tables (opens s) (closes s)

/-- The counter does not wrap, a handle comes from a `BeginWrite` that has returned, no transaction with an
empty `doc_id` is finalized, and no ROLLBACK append fails. -/
def Orderly (s : State) : Act → Prop
  | .begin .. => s.tables.nextTxnId.toNat + 1 < 2 ^ 64
  | .commit _ txn _ | .rollback _ txn _ =>
    (∀ tid d, opens s tid ≠ some (txn, d)) ∧ ¬ PendingOn s.tables txn []
  | .append tid o => ∀ e orig, s.calls tid = some (.rollbackAppend e orig) → o = .ok
  | _ => True

theorem opens_setCall (s : State) (tid : Nat) (c : Option Call) :
    opens (setCall s tid c) = Function.update (opens s) tid (c.bind Call.opening) := by
  funext tid'
  by_cases h : tid' = tid
  · simp [opens, setCall, h]
  · simp [opens, setCall, h]

theorem closes_setCall (s : State) (tid : Nat) (c : Option Call) :
    closes (setCall s tid c) = Function.update (closes s) tid (c.bind Call.closing) := by
  funext tid'
  by_cases h : tid' = tid
  · simp [closes, setCall, h]
  · simp [closes, setCall, h]

section
variable {s : State} {tid : Nat} {c : Call}

theorem locked_setCall (tables : Tables) {new : Option Call}
    (h : Locks tables (Function.update (opens s) tid (new.bind Call.opening))
    (Function.update (closes s) tid (new.bind Call.closing))) : Locked (setCall { s with tables } tid new) := by
  unfold Locked
  rw [opens_setCall, closes_setCall]
  exact h

theorem update_opens {v : Option (UInt64 × Bytes)} (hc : s.calls tid = some c) (hv : c.opening = v) :
    Function.update (opens s) tid v = opens s := by
  rw [show v = opens s tid by simp [opens, hc, hv], Function.update_eq_self]

theorem update_closes {v : Option (UInt64 × Bytes)} (hc : s.calls tid = some c) (hv : c.closing = v) :
    Function.update (closes s) tid v = closes s := by
  rw [show v = closes s tid by simp [closes, hc, hv], Function.update_eq_self]

theorem Locked.move (h : Locked s) (new : Option Call) (hc : s.calls tid = some c)
    (hopen : c.opening = new.bind Call.opening) (hclose : c.closing = new.bind Call.closing) :
    Locked (setCall s tid new) := by
  refine locked_setCall s.tables ?_
  rw [update_opens hc hopen, update_closes hc hclose]
  exact h

theorem Locked.release (h : Locked s) (new : Option Call) {e : PendingEntry} {orig : TxnState}
    (hc : s.calls tid = some c) (hopen : c.opening = none) (hclose : c.closing = some (e.txnId, orig.docId))
    (hnew : new.bind Call.opening = none ∧ new.bind Call.closing = none) {tables : Tables}
    (hnext : tables.nextTxnId = (s.tables.releaseDoc orig.docId).nextTxnId)
    (htxns : tables.activeTxns = (s.tables.releaseDoc orig.docId).activeTxns)
    (hdocs : tables.activeDocs = (s.tables.releaseDoc orig.docId).activeDocs) :
    Locked (setCall { s with tables } tid new) := by
  refine locked_setCall _ ?_
  rw [hnew.1, hnew.2, update_opens hc hopen]
  have hheld : closes s tid = some (e.txnId, orig.docId) := by simp [closes, hc, hclose]
  exact Locks.of_tables_eq (Locks.release h hheld) hnext htxns hdocs

end

theorem locked_reply {s : State} {tid : Nat} (h : Locked s) (hidle : s.calls tid = none) (st : Status) :
    Locked (reply s tid st) := by
  have hsame : setCall s tid none = s := by
    simp only [setCall]
    rw [show (none : Option Call) = s.calls tid from hidle.symm, Function.update_eq_self]
  have heq : Locked (reply s tid st) ↔ Locked (setCall s tid none) := Iff.rfl
  rw [heq, hsame]
  exact h

theorem locked_finalize {s : State} {tid : Nat} {txn : UInt64} {new : PendingEntry.State} {orig : TxnState}
    {tables : Tables} {call : Call} (h : Locked s) (hidle : s.calls tid = none)
    (hq : (∀ tid d, opens s tid ≠ some (txn, d)) ∧ ¬ PendingOn s.tables txn []) (hnew : new ≠ .pending)
    (hmark : s.tables.checkAndMarkFinalizing txn new = .ok (orig, tables)) (hopen : call.opening = none)
    (hclose : call.closing = some (txn, orig.docId)) : Locked (setCall { s with tables } tid (some call)) := by
  obtain ⟨hst, hpend, -⟩ := checkAndMark_ok hmark
  have hne : orig.docId ≠ [] := fun hempty => hq.2 ⟨orig, hst, hpend, hempty⟩
  refine locked_setCall _ ?_
  rw [Option.bind_some, Option.bind_some, hopen, hclose,
    show (none : Option (UInt64 × Bytes)) = opens s tid by simp [opens, hidle], Function.update_eq_self]
  exact Locks.mark h hnew hmark hne hq.1 (by simp [closes, hidle])

theorem locked_step {cfg : Config} {s s' : State} {a : Act} (h : Locked s) (hq : Orderly s a)
    (hstep : step cfg s a = some s') : Locked s' := by
  cases step_next hstep with
  | refused ha hrunning hidle st => exact locked_reply h hidle st
  | begun hrunning hidle hres =>
    rename_i tid docId blockIds writesBlob scope now txn tables
    refine locked_setCall _ ?_
    rw [Option.bind_some, Option.bind_some]
    change Locks _ _ (Function.update (closes s) tid none)
    rw [show (none : Option (UInt64 × Bytes)) = closes s tid by simp [closes, hidle], Function.update_eq_self]
    exact Locks.reserve h hres hq
  | committing hrunning hidle hmark | committingBlind hrunning hidle hneg hmark | rollingBack hrunning hidle hmark =>
    exact locked_finalize h hidle hq (by simp) hmark rfl rfl
  | beginAcked hc =>
    rename_i tid e
    have hopened : Locked (setCall s tid none) := by
      refine locked_setCall s.tables ?_
      rw [update_closes hc (v := none.bind Call.closing) rfl]
      exact Locks.opened h
    exact hopened
  | beginFailed hc => exact h.move (some (.beginUndo _ _)) hc rfl rfl
  | commitAcked hc => exact h.move (some (.commitRelease _ _)) hc rfl rfl
  | commitRetry hc => exact h.move (some (.commitAppend _ _ _)) hc rfl rfl
  | commitFailed hc => exact h.move (some (.commitFail _ _ _)) hc rfl rfl
  | rollbackAcked hc => exact h.move (some (.rollbackRelease _ _)) hc rfl rfl
  | rollbackFailed hc st => cases hq _ _ hc
  | undone hc st =>
    rename_i tid e err
    refine locked_setCall (s.tables.undo e.txnId e.docId) ?_
    rw [update_closes hc (v := none.bind Call.closing) rfl]
    exact Locks.undo h (by simp [opens, hc, Call.opening])
  | gaveUp hc st => exact h.release none hc rfl rfl ⟨rfl, rfl⟩ rfl rfl rfl
  | compactDue hc =>
    obtain ⟨hnext, htxns, hdocs⟩ := countCommit_tables cfg (s.tables.releaseDoc _)
    exact h.release (some (.commitCompact _)) hc rfl rfl ⟨rfl, rfl⟩ hnext htxns hdocs
  | committed hc =>
    obtain ⟨hnext, htxns, hdocs⟩ := countCommit_tables cfg (s.tables.releaseDoc _)
    exact h.release none hc rfl rfl ⟨rfl, rfl⟩ hnext htxns hdocs
  | swept hc =>
    refine locked_setCall s.tables.sweep ?_
    rw [update_opens hc (v := none.bind Call.opening) rfl, update_closes hc (v := none.bind Call.closing) rfl]
    exact Locks.sweep h
  | released hc => exact h.release (some (.rollbackCallback _ _)) hc rfl rfl ⟨rfl, rfl⟩ rfl rfl rfl
  | compacted hc => exact h.move (some (.commitSweep _)) hc rfl rfl
  | compactFailed hc | cleaned hc | cleanupFailed hc st => exact h.move none hc rfl rfl
  | wrote hlive => exact h
  | wroteLabel hlive => exact h
  | recovered hrec =>
    simp only [stepRecover] at hrec
    repeat' split at hrec
    all_goals cases hrec
    all_goals exact Locks.init _

/-- **No document stays locked.** In every run of orderly steps, in every state with no `Commit` or `Rollback`
in flight, a locked document has a PENDING transaction that a further `Commit` or `Rollback` accepts; and a
document never has two PENDING transactions. -/
theorem locked_doc_writable (cfg : Config) (stores : Stores) (acts : List Act) (s : State)
    (hrun : run (step cfg) { stores } acts = some s) (horderly : Along (step cfg) Orderly { stores } acts) :
    ((∀ tid c, s.calls tid = some c → c.finalizing = false) → ∀ d, (s.tables.activeDocs d).isSome →
      ∃ txn, PendingOn s.tables txn d ∧ ∀ new, (s.tables.checkAndMarkFinalizing txn new).isOk = true) ∧
    ∀ d txn txn', PendingOn s.tables txn d → PendingOn s.tables txn' d → txn = txn' := by
  have hinit : Locked { stores } := Locks.init 1
  have h : Locked s := run_inv (fun hi hq hstep => locked_step hi hq hstep) hinit horderly hrun
  refine ⟨fun hquiet d hd => ?_, fun d txn txn' hp hp' => Locks.pending_unique h hp hp'⟩
  obtain ⟨txn, htxn⟩ := Option.isSome_iff_exists.mp hd
  rcases h.docs htxn with hp | ⟨tid, hc⟩
  · refine ⟨txn, hp, fun new => ?_⟩
    obtain ⟨st, hst, hpend, -⟩ := hp
    simp [Tables.checkAndMarkFinalizing, hst, hpend, Except.isOk, Except.toBool]
  · -- a call that holds the document would be in flight
    obtain ⟨c, hcall, hclose⟩ := Option.bind_eq_some_iff.mp hc
    have hnot := hquiet tid c hcall
    cases c <;> simp_all [Call.closing, Call.finalizing]

def twoDocs : List Act :=
  [.begin 0 [0x64] [7] false .document 0, .append 0 .ok, .commit 0 1 0, .append 0 .ok, .advance 0,
   .begin 0 [0x65] [8] false .document 0, .append 0 .ok]

theorem locked_doc_writable_twoDocs :
    ∃ s, run (step {}) { stores := emptyStores } twoDocs = some s ∧ s.tables.activeDocs [0x64] = none ∧
      ∃ txn, PendingOn s.tables txn [0x65] ∧ ∀ new, (s.tables.checkAndMarkFinalizing txn new).isOk = true := by
  have horderly : Along (step {}) Orderly { stores := emptyStores } twoDocs := by
    refine ⟨?_, (fun _ _ h => nomatch h), ⟨fun tid d => ?_, ?_⟩, (fun _ _ h => nomatch h), trivial, ?_,
      (fun _ _ h => nomatch h), trivial⟩
    · show (1 : UInt64).toNat + 1 < 2 ^ 64
      decide
    · by_cases h : tid = 0
      · subst h
        exact fun h => nomatch h
      · simp [opens, setCall, reply]
    · rintro ⟨st, hst, -, hdoc⟩
      cases hst
      cases hdoc
    · show ((1 : UInt64) + 1).toNat + 1 < 2 ^ 64
      decide
  refine ⟨_, rfl, rfl, ?_⟩
  refine (locked_doc_writable {} emptyStores twoDocs _ rfl horderly).1 (fun tid c hc => ?_) [0x65] rfl
  by_cases h : tid = 0
  · subst h
    cases hc
  · simp [setCall, reply] at hc

/-- A begun document whose ROLLBACK append fails. -/
def failedRollback : List Act :=
  [.begin 0 [0x64] [7] false .document 0, .append 0 .ok, .rollback 0 1 0, .append 0 (.failed 0 "injected append failure")]

/-- The lock of a transaction whose ROLLBACK append failed is held by nobody. -/
theorem doc_locked_forever :
    ∃ s, run (step {}) { stores := emptyStores } failedRollback = some s ∧ (∀ tid, s.calls tid = none) ∧
      (s.tables.activeDocs [0x64]).isSome = true ∧ ∀ txn, ¬ PendingOn s.tables txn [0x64] := by
  refine ⟨_, rfl, fun tid => ?_, rfl, fun txn => ?_⟩
  · by_cases h : tid = 0
    · subst h
      rfl
    · simp [setCall, reply]
  · rintro ⟨st, hst, hpend, -⟩
    by_cases h : txn = 1
    · subst h
      cases hst
      cases hpend
    · simp [setCall, reply, h] at hst

end Cortrix.Store.WriteCoordinator
