import Cortrix.Store.CoordinatorLog

/-!
# What the log says about a transaction

* `txnRecord_snoc` : one record more changes what is known of its own transaction only;
* `txnRecord_unfinished` : a compaction forgets the finalized transactions and keeps the others as they are;
* `Due entries stores d` : `Recover` on this log and these stores owes the cleanup `d`;
* `resolveAll_invokes` : a lenient `Recover` that runs to its end invokes the callback for every cleanup due.
-/

namespace Cortrix.Store.WriteCoordinator
open Lib PendingLogWriter
open PendingEntry (Fits serialize stored)

theorem txnRecord_snoc (entries : List PendingEntry) (e : PendingEntry) (txn : UInt64) :
    txnRecord (entries ++ [e]) txn =
      if e.txnId = txn then (txnRecord entries txn).add e else txnRecord entries txn := by
  unfold txnRecord
  rw [List.filter_append]
  by_cases h : e.txnId = txn
  · rw [if_pos h, List.filter_cons_of_pos (by simpa using h), List.filter_nil, List.foldl_append]
    rfl
  · rw [if_neg h, List.filter_cons_of_neg (by simpa using h), List.filter_nil, List.append_nil]

theorem txnRecord_nil (txn : UInt64) : txnRecord [] txn = {} := rfl

theorem txnRecord_of_forall_ne {entries : List PendingEntry} {txn : UInt64} (h : ∀ e ∈ entries, e.txnId ≠ txn) :
    txnRecord entries txn = {} := by
  unfold txnRecord
  rw [List.filter_eq_nil_iff.mpr (by simpa using h)]
  rfl

theorem exists_mem_of_txnRecord {entries : List PendingEntry} {txn : UInt64} (h : txnRecord entries txn ≠ {}) :
    ∃ e ∈ entries, e.txnId = txn := by
  by_contra hnone
  exact h (txnRecord_of_forall_ne fun e he heq => hnone ⟨e, he, heq⟩)

theorem finalized_eq_or (entries : List PendingEntry) (txn : UInt64) :
    finalized entries txn = ((txnRecord entries txn).hasCommitted || (txnRecord entries txn).hasRollback) := by
  induction entries using List.reverseRecOn with
  | nil => rfl
  | append_singleton entries e ih =>
    rw [txnRecord_snoc]
    unfold finalized at ih ⊢
    rw [List.any_append, ih]
    by_cases h : e.txnId = txn
    · rw [if_pos h]
      cases hst : e.state <;> simp [TxnRecord.add, hst, h]
    · simp [h]

theorem txnRecord_unfinished (entries : List PendingEntry) (txn : UInt64) :
    txnRecord (unfinished entries) txn = if finalized entries txn then {} else txnRecord entries txn := by
  by_cases hfin : finalized entries txn = true
  · rw [if_pos hfin]
    refine txnRecord_of_forall_ne fun e he heq => ?_
    have hnot := (mem_unfinished.mp he).2.2
    rw [heq, hfin] at hnot
    cases hnot
  · rw [if_neg hfin]
    unfold txnRecord unfinished
    rw [List.filter_filter]
    congr 1
    refine List.filter_congr fun e he => ?_
    by_cases htxn : e.txnId = txn
    · have hpend : e.state = .pending := by
        by_contra hne
        refine hfin (List.any_eq_true.mpr ⟨e, he, ?_⟩)
        cases hst : e.state <;> simp_all
      simp [htxn, hpend, hfin]
    · simp [htxn]

/-! ## The loop of Recover -/

/-- The record that settles a transaction which had none. -/
def terminal (cleaned : Bool) (txn : UInt64) (now : Int64) : PendingEntry :=
  { state := if cleaned then .rollback else .committed, txnId := txn, timestampMs := now }

section
variable {cfg : Config} {entries : List PendingEntry} {outcome : UInt64 → Outcome} {r : Recovery} {txn : UInt64}

theorem resolveTxn_eq (hlenient : cfg.strictRecovery = false) (hr : r.aborted = false) :
    resolveTxn cfg entries outcome r txn =
      let rec_ := txnRecord entries txn
      let cleaned := rec_.needsCleanup r.stores
      { image := if rec_.hasPending && !rec_.hasRollback && !rec_.hasCommitted then
            (outcome txn).append.image r.image (terminal cleaned txn (outcome txn).now).serialize
          else r.image
        stores := if cleaned then r.stores.cleanup (rec_.payload txn) (outcome txn).failed else r.stores
        invoked := if cleaned then r.invoked ++ [(rec_.payload txn, (outcome txn).callbackOk)] else r.invoked
        aborted := false } := by
  obtain ⟨image, stores, invoked, aborted⟩ := r
  subst hr
  unfold resolveTxn
  simp only [hlenient, Bool.and_false, Bool.false_or]
  cases hcom : (txnRecord entries txn).hasCommitted with
  | true => simp [TxnRecord.needsCleanup, hcom]
  | false =>
    cases hclean : (txnRecord entries txn).needsCleanup stores <;>
      cases hpend : (txnRecord entries txn).hasPending <;> cases hroll : (txnRecord entries txn).hasRollback <;>
      simp [terminal]

theorem resolveTxn_shrunk (entries : List PendingEntry) (outcome : UInt64 → Outcome) (txn : UInt64)
    (hlenient : cfg.strictRecovery = false) (hr : r.aborted = false) :
    (resolveTxn cfg entries outcome r txn).stores.Shrunk r.stores ∧
      (resolveTxn cfg entries outcome r txn).aborted = false ∧
      r.invoked <+: (resolveTxn cfg entries outcome r txn).invoked := by
  rw [resolveTxn_eq hlenient hr]
  refine ⟨?_, rfl, ?_⟩
  · simp only
    split
    · exact Stores.Shrunk.cleanup _ _ _
    · exact Stores.Shrunk.refl _
  · simp only
    split
    · exact List.prefix_append _ _
    · exact List.prefix_refl _

/-- The cleanup `d` is due to `Recover` on this log and these stores. -/
structure Due (entries : List PendingEntry) (stores : Stores) (d : Obligation) : Prop where
  open_ : (txnRecord entries d.txnId).hasCommitted = false
  payload : obligation ((txnRecord entries d.txnId).payload d.txnId) = d
  rolled : (txnRecord entries d.txnId).hasRollback = true ∨
    (txnRecord entries d.txnId).hasPending = true ∧ stores.allStoresHave (txnRecord entries d.txnId).pending = false

variable {stores : Stores} {d : Obligation}

theorem Due.shrunk {stores' : Stores} (h : Due entries stores d) (hshrunk : stores'.Shrunk stores) :
    Due entries stores' d := by
  refine ⟨h.open_, h.payload, h.rolled.imp_right fun ⟨hpend, hmissing⟩ => ⟨hpend, ?_⟩⟩
  rw [Bool.eq_false_iff] at hmissing ⊢
  exact fun hall => hmissing (hshrunk.allStoresHave hall)

theorem Due.needsCleanup (h : Due entries stores d) : (txnRecord entries d.txnId).needsCleanup stores = true := by
  unfold TxnRecord.needsCleanup
  rw [h.open_]
  rcases h.rolled with hroll | ⟨hpend, hmissing⟩
  · simp [hroll]
  · cases hroll : (txnRecord entries d.txnId).hasRollback <;> simp [hpend, hmissing]

theorem Due.of_needsCleanup (h : (txnRecord entries txn).needsCleanup stores = true) :
    Due entries stores (obligation ((txnRecord entries txn).payload txn)) := by
  unfold TxnRecord.needsCleanup at h
  cases hcom : (txnRecord entries txn).hasCommitted with
  | true => simp [hcom] at h
  | false =>
    refine ⟨hcom, rfl, ?_⟩
    cases hroll : (txnRecord entries txn).hasRollback with
    | true => exact Or.inl hroll
    | false =>
      cases hpend : (txnRecord entries txn).hasPending with
      | false => simp [hcom, hroll, hpend] at h
      | true =>
        have hmissing : stores.allStoresHave (txnRecord entries txn).pending = false := by
          simpa [hcom, hroll, hpend] using h
        exact Or.inr ⟨hpend, hmissing⟩

theorem Due.mem_txnIds (h : Due entries stores d) : d.txnId ∈ txnIds entries := by
  have hne : txnRecord entries d.txnId ≠ {} := by
    intro heq
    have hrolled := h.rolled
    rw [heq] at hrolled
    simp at hrolled
  obtain ⟨e, he, htxn⟩ := exists_mem_of_txnRecord hne
  exact List.mem_dedup.mpr (List.mem_map.mpr ⟨e, he, htxn⟩)

theorem foldl_invokes (hlenient : cfg.strictRecovery = false) (order : List UInt64) {r : Recovery}
    (hr : r.aborted = false) (hdue : Due entries r.stores d) (hmem : d.txnId ∈ order) :
    ∃ i ∈ (order.foldl (resolveTxn cfg entries outcome) r).invoked, obligation i.1 = d := by
  -- what has been invoked stays
  have hkeep : ∀ (order : List UInt64) {r : Recovery}, r.aborted = false →
      r.invoked <+: (order.foldl (resolveTxn cfg entries outcome) r).invoked := by
    intro order
    induction order with
    | nil => exact fun _ => List.prefix_refl _
    | cons txn order ih =>
      intro r hr
      obtain ⟨-, habort, hpre⟩ := resolveTxn_shrunk entries outcome txn hlenient hr
      exact hpre.trans (ih habort)
  induction order generalizing r with
  | nil => cases hmem
  | cons txn order ih =>
    obtain ⟨hshrunk, habort, -⟩ := resolveTxn_shrunk entries outcome txn hlenient hr
    rcases List.mem_cons.mp hmem with rfl | hmem
    · refine ⟨((txnRecord entries d.txnId).payload d.txnId, (outcome d.txnId).callbackOk),
        (hkeep order habort).subset ?_, hdue.payload⟩
      rw [resolveTxn_eq hlenient hr]
      simp [hdue.needsCleanup]
    · exact ih habort (hdue.shrunk hshrunk) hmem

theorem foldl_invoked (hlenient : cfg.strictRecovery = false) (order : List UInt64) {r : Recovery}
    (hr : r.aborted = false) :
    ∀ i ∈ (order.foldl (resolveTxn cfg entries outcome) r).invoked,
      i ∈ r.invoked ∨ i.1.txnId ∈ order ∧ i.2 = (outcome i.1.txnId).callbackOk := by
  induction order generalizing r with
  | nil => exact fun i hi => Or.inl hi
  | cons txn order ih =>
    intro i hi
    obtain ⟨-, habort, -⟩ := resolveTxn_shrunk entries outcome txn hlenient hr
    rcases ih habort i hi with hold | ⟨hmem, hok⟩
    · rw [resolveTxn_eq hlenient hr] at hold
      simp only at hold
      split at hold
      · rcases List.mem_append.mp hold with hold | hnew
        · exact Or.inl hold
        · rw [List.mem_singleton.mp hnew]
          exact Or.inr ⟨List.mem_cons_self, rfl⟩
      · exact Or.inl hold
    · exact Or.inr ⟨List.mem_cons_of_mem _ hmem, hok⟩

theorem resolveAll_invokes (hlenient : cfg.strictRecovery = false) {image : Bytes} {order : List UInt64}
    (hdue : Due (readAll image).1 stores d) (horder : validOrder (readAll image).1 order true = true) :
    ∃ i ∈ (resolveAll cfg image stores order outcome).invoked, obligation i.1 = d := by
  have hperm : order.Perm (txnIds (readAll image).1) := by simpa [validOrder, List.isPerm_iff] using horder
  exact foldl_invokes hlenient order rfl hdue (hperm.mem_iff.mpr hdue.mem_txnIds)

/-! ## The log during the loop -/

/-- What the loop keeps: `r` is the state after the transactions `done`. -/
structure Resolving (entries : List PendingEntry) (stores : Stores) (done : List UInt64) (r : Recovery) : Prop where
  headed : WellHeaded r.image
  fits : ∀ e ∈ (scanRecords r.image).1, Fits e
  going : r.aborted = false
  ids : ∀ e ∈ (scanRecords r.image).1, e.txnId ∈ txnIds entries
  untouched : ∀ txn ∉ done, txnRecord (scanRecords r.image).1 txn = txnRecord entries txn
  due : ∀ d, Due entries stores d → Due (scanRecords r.image).1 r.stores d
  invoked : ∀ i ∈ r.invoked, Due (scanRecords r.image).1 r.stores (obligation i.1)

theorem txnRecord_terminal (entries : List PendingEntry) (cleaned : Bool) (txn txn' : UInt64) (now : Int64) :
    txnRecord (entries ++ [stored (terminal cleaned txn now)]) txn' =
      if txn = txn' then
        if cleaned then { txnRecord entries txn' with hasRollback := true }
        else { txnRecord entries txn' with hasCommitted := true }
      else txnRecord entries txn' := by
  rw [txnRecord_snoc, PendingEntry.stored_txnId]
  cases cleaned <;> rfl

theorem Due.append_terminal {cleaned : Bool} {now : Int64} (h : Due entries stores d)
    (hcleaned : txn = d.txnId → cleaned = true) : Due (entries ++ [stored (terminal cleaned txn now)]) stores d := by
  have hrec := txnRecord_terminal entries cleaned txn d.txnId now
  by_cases htxn : txn = d.txnId
  · rw [if_pos htxn, if_pos (hcleaned htxn)] at hrec
    exact ⟨by rw [hrec]; exact h.open_, by rw [hrec]; exact h.payload, by rw [hrec]; exact Or.inl rfl⟩
  · rw [if_neg htxn] at hrec
    exact ⟨by rw [hrec]; exact h.open_, by rw [hrec]; exact h.payload, by rw [hrec]; exact h.rolled⟩

theorem terminal_fits (cleaned : Bool) (txn : UInt64) (now : Int64) : Fits (terminal cleaned txn now) := by
  intro hp
  cases cleaned <;> cases hp

theorem resolveTxn_log (entries : List PendingEntry) (outcome : UInt64 → Outcome) (txn : UInt64)
    (hlenient : cfg.strictRecovery = false) (hr : r.aborted = false) (hhead : WellHeaded r.image) (hend : AtEnd r.image) :
    WellHeaded (resolveTxn cfg entries outcome r txn).image ∧
      ((scanRecords (resolveTxn cfg entries outcome r txn).image).1 = (scanRecords r.image).1 ∨
        (scanRecords (resolveTxn cfg entries outcome r txn).image).1 = (scanRecords r.image).1 ++
          [stored (terminal ((txnRecord entries txn).needsCleanup r.stores) txn (outcome txn).now)]) := by
  rw [resolveTxn_eq hlenient hr]
  simp only
  split
  · refine ⟨AppendOutcome.wellHeaded _ hhead _, ?_⟩
    rcases scanRecords_image (outcome txn).append hhead.le_length hend (terminal_fits _ txn (outcome txn).now) with
      hscan | ⟨-, hscan⟩
    · exact Or.inr (congrArg Prod.fst hscan)
    · exact Or.inl hscan
  · exact ⟨hhead, Or.inl rfl⟩

namespace Resolving
variable {done : List UInt64}

theorem step (h : Resolving entries stores done r) (outcome : UInt64 → Outcome)
    (hlenient : cfg.strictRecovery = false) (htxn : txn ∉ done) (hmem : txn ∈ txnIds entries) (hend : AtEnd r.image) :
    Resolving entries stores (done ++ [txn]) (resolveTxn cfg entries outcome r txn) := by
  obtain ⟨hshrunk, habort, -⟩ := resolveTxn_shrunk entries outcome txn hlenient h.going
  obtain ⟨hhead, hlog⟩ := resolveTxn_log entries outcome txn hlenient h.going h.headed hend
  have hsame := h.untouched txn htxn
  -- a cleanup due before the turn is due after it
  have hkeep : ∀ d, Due (scanRecords r.image).1 r.stores d →
      Due (scanRecords (resolveTxn cfg entries outcome r txn).image).1
        (resolveTxn cfg entries outcome r txn).stores d := by
    intro d hd
    refine Due.shrunk ?_ hshrunk
    rcases hlog with hlog | hlog
    · rw [hlog]
      exact hd
    · rw [hlog]
      refine hd.append_terminal fun heq => ?_
      rw [← hsame, heq]
      exact hd.needsCleanup
  refine ⟨hhead, ?_, habort, ?_, ?_, fun d hd => hkeep d (h.due d hd), ?_⟩
  · rcases hlog with hlog | hlog
    · rw [hlog]
      exact h.fits
    · rw [hlog]
      intro e he
      rcases List.mem_append.mp he with he | he
      · exact h.fits e he
      · rw [List.mem_singleton.mp he]
        intro hp
        rw [PendingEntry.stored_state] at hp
        exact absurd hp (by unfold terminal; simp only; split <;> simp)
  · rcases hlog with hlog | hlog
    · rw [hlog]
      exact h.ids
    · rw [hlog]
      intro e he
      rcases List.mem_append.mp he with he | he
      · exact h.ids e he
      · rw [List.mem_singleton.mp he, PendingEntry.stored_txnId]
        exact hmem
  · intro txn' hnot
    rw [List.mem_append, List.mem_singleton, not_or] at hnot
    rcases hlog with hlog | hlog
    · rw [hlog, h.untouched txn' hnot.1]
    · rw [hlog, txnRecord_terminal, if_neg (Ne.symm hnot.2), h.untouched txn' hnot.1]
  · intro i hi
    rw [resolveTxn_eq hlenient h.going] at hi
    simp only at hi
    split at hi
    · rename_i hclean
      rcases List.mem_append.mp hi with hi | hi
      · exact hkeep _ (h.invoked i hi)
      · rw [List.mem_singleton.mp hi]
        refine hkeep _ ?_
        rw [← hsame] at hclean ⊢
        exact Due.of_needsCleanup hclean
    · exact hkeep _ (h.invoked i hi)

theorem foldl (hlenient : cfg.strictRecovery = false) (order : List UInt64) {r : Recovery} {done : List UInt64}
    (h : Resolving entries stores done r) (hnodup : (done ++ order).Nodup) (hmem : ∀ txn ∈ order, txn ∈ txnIds entries)
    (hend : ∀ pre txn post, order = pre ++ txn :: post →
      AtEnd (pre.foldl (resolveTxn cfg entries outcome) r).image) :
    Resolving entries stores (done ++ order) (order.foldl (resolveTxn cfg entries outcome) r) := by
  induction order generalizing r done with
  | nil => simpa using h
  | cons txn order ih =>
    have hnot : txn ∉ done := by
      have := (List.nodup_append.mp hnodup).2.2
      exact fun hin => this txn hin txn (by simp) rfl
    have hstep := h.step outcome hlenient hnot (hmem txn (by simp)) (hend [] txn order rfl)
    rw [List.append_cons]
    refine ih hstep ?_ (fun t ht => hmem t (by simp [ht])) fun pre t post heq => ?_
    · simpa using hnodup
    · exact hend (txn :: pre) t post (by rw [heq, List.cons_append])

end Resolving

theorem resolveAll_resolving (stores : Stores) (hlenient : cfg.strictRecovery = false) {image : Bytes}
    {order : List UInt64} {complete : Bool} (hhead : WellHeaded image) (hfits : ∀ e ∈ (scanRecords image).1, Fits e)
    (horder : validOrder (readAll image).1 order complete = true)
    (hend : ∀ pre txn post, order = pre ++ txn :: post → AtEnd (resolveAll cfg image stores pre outcome).image) :
    Resolving (readAll image).1 stores order (resolveAll cfg image stores order outcome) := by
  have hscan := congrArg Prod.fst (scanRecords_readAll hhead.le_length)
  have hstart : Resolving (readAll image).1 stores [] { image := (readAll image).2, stores } := by
    refine ⟨hhead.readAll, ?_, rfl, ?_, ?_, ?_, ?_⟩
    · simpa only [hscan] using hfits
    · intro e he
      rw [hscan] at he
      exact List.mem_dedup.mpr (List.mem_map_of_mem he)
    · intro txn _
      rw [hscan]
      rfl
    · intro d hd
      rw [hscan]
      exact hd
    · intro i hi
      cases hi
  have hvalid : order.Nodup ∧ ∀ txn ∈ order, txn ∈ txnIds (readAll image).1 := by
    unfold validOrder at horder
    split at horder
    · have hperm := List.isPerm_iff.mp horder
      exact ⟨hperm.nodup_iff.mpr (List.nodup_dedup _), fun txn htxn => hperm.mem_iff.mp htxn⟩
    · simpa using horder
  exact Resolving.foldl hlenient order hstart hvalid.1 hvalid.2 hend

end

end Cortrix.Store.WriteCoordinator
