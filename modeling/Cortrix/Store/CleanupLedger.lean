import Cortrix.Store.TxnRecords

/-!
# The ledger of transactions and cleanups

`Ledger` ties the transaction table, the calls in flight and the cleanups owed to what the log says about each
transaction: a PENDING transaction has its payload in the log and no verdict, and so has one whose ROLLBACK is
on its way; a cleanup that is owed has its payload and a ROLLBACK record.
-/

namespace Cortrix.Store.WriteCoordinator
open Lib PendingLogWriter
open PendingEntry (Fits serialize stored)

def IsPending (txns : UInt64 → Option TxnState) (txn : UInt64) : Prop :=
  ∃ st, txns txn = some st ∧ st.state = .pending

/-- What the table knows of a transaction, as its cleanup would need it. -/
def TxnState.obligation (st : TxnState) (txn : UInt64) : Obligation := ⟨txn, st.docId, st.blockIds, st.scope⟩

/-- The log has the payload of the transaction and no verdict on it. -/
structure Undecided (known : UInt64 → TxnRecord) (d : Obligation) : Prop where
  committed : (known d.txnId).hasCommitted = false
  rollback : (known d.txnId).hasRollback = false
  payload : obligation ((known d.txnId).payload d.txnId) = d

/-- The log has the payload of the transaction and its ROLLBACK. -/
structure Rolled (known : UInt64 → TxnRecord) (d : Obligation) : Prop where
  committed : (known d.txnId).hasCommitted = false
  rollback : (known d.txnId).hasRollback = true
  payload : obligation ((known d.txnId).payload d.txnId) = d

/-- `begins tid` is the record of a `BeginWrite` in slot `tid`, and whether it is still to be appended; `ends
tid` is the record a `Commit` or `Rollback` there is about to append, with the payload of its transaction. -/
structure Ledger (txns : UInt64 → Option TxnState) (next : UInt64) (known : UInt64 → TxnRecord)
    (begins : Nat → Option (PendingEntry × Bool)) (ends : Nat → Option (PendingEntry × Obligation))
    (owed : List Obligation) : Prop where
  pending : ∀ {txn st}, txns txn = some st → st.state = .pending →
    (∀ tid e b, begins tid = some (e, b) → e.txnId ≠ txn) → Undecided known (st.obligation txn)
  beginning : ∀ {tid e b}, begins tid = some (e, b) → e.state = .pending ∧
    (∃ st, txns e.txnId = some st ∧ st.state = .pending ∧ st.obligation e.txnId = obligation e) ∧
    (b = true → known e.txnId = {})
  beginningUnique : ∀ {tid tid' e e' b b'}, begins tid = some (e, b) → begins tid' = some (e', b') →
    e.txnId = e'.txnId → tid = tid'
  ending : ∀ {tid e d}, ends tid = some (e, d) → e.txnId = d.txnId ∧ e.state ≠ .pending ∧
    ¬ IsPending txns d.txnId ∧ (e.state = .rollback → Undecided known d) ∧ ∀ d' ∈ owed, d'.txnId ≠ d.txnId
  endingUnique : ∀ {tid tid' e e' d d'}, ends tid = some (e, d) → ends tid' = some (e', d') →
    d.txnId = d'.txnId → tid = tid'
  rolled : ∀ {d}, d ∈ owed → Rolled known d ∧ ¬ IsPending txns d.txnId
  fresh : ∀ {txn}, next ≤ txn → txns txn = none ∧ known txn = {}
  freshEnding : ∀ {tid e d}, ends tid = some (e, d) → d.txnId < next

theorem Undecided.congr {known known' : UInt64 → TxnRecord} {d : Obligation} (h : Undecided known d)
    (heq : known' d.txnId = known d.txnId) : Undecided known' d :=
  ⟨by rw [heq]; exact h.committed, by rw [heq]; exact h.rollback, by rw [heq]; exact h.payload⟩

theorem Rolled.congr {known known' : UInt64 → TxnRecord} {d : Obligation} (h : Rolled known d)
    (heq : known' d.txnId = known d.txnId) : Rolled known' d :=
  ⟨by rw [heq]; exact h.committed, by rw [heq]; exact h.rollback, by rw [heq]; exact h.payload⟩

namespace Ledger
variable {txns : UInt64 → Option TxnState} {next txn : UInt64} {known : UInt64 → TxnRecord}
  {begins : Nat → Option (PendingEntry × Bool)} {ends : Nat → Option (PendingEntry × Obligation)}
  {owed : List Obligation} {tid : Nat} {e : PendingEntry} {d : Obligation} {b : Bool}

theorem init (hfresh : ∀ txn, next ≤ txn → known txn = {}) :
    Ledger (fun _ => none) next known (fun _ => none) (fun _ => none) [] := by
  constructor
  case fresh => exact fun h => ⟨rfl, hfresh _ h⟩
  all_goals simp

theorem isPending_of_begins (h : Ledger txns next known begins ends owed) (hb : begins tid = some (e, b)) :
    IsPending txns e.txnId := by
  obtain ⟨-, ⟨st, hst, hpend, -⟩, -⟩ := h.beginning hb
  exact ⟨st, hst, hpend⟩

theorem lt_next (h : Ledger txns next known begins ends owed) (hp : IsPending txns txn) : txn < next := by
  obtain ⟨st, hst, -⟩ := hp
  by_contra hle
  have hnone := (h.fresh (UInt64.not_lt.mp hle)).1
  rw [hst] at hnone
  cases hnone

theorem isPending_update {st : TxnState} {txn' : UInt64} :
    IsPending (Function.update txns txn (some st)) txn' ↔
      txn' = txn ∧ st.state = .pending ∨ txn' ≠ txn ∧ IsPending txns txn' := by
  rcases eq_or_ne txn' txn with rfl | hne
  · simp [IsPending]
  · simp [IsPending, hne]

theorem reserve (h : Ledger txns next known begins ends owed) (hidle : begins tid = none) (he : e.state = .pending)
    (htxn : e.txnId = next) (hnowrap : next.toNat + 1 < 2 ^ 64) :
    Ledger (Function.update txns next (some ⟨.pending, e.docId, e.blockIds, e.scope⟩)) (next + 1) known
      (Function.update begins tid (some (e, true))) ends owed := by
  obtain ⟨hnone, hrec⟩ := h.fresh (UInt64.le_refl next)
  have hlt := lt_succ_of_noWrap hnowrap
  have hbegun : ∀ {t e' b}, begins t = some (e', b) → e'.txnId ≠ next := fun hb heq =>
    absurd (h.lt_next (h.isPending_of_begins hb)) (by rw [heq]; exact UInt64.lt_irrefl _)
  constructor
  case pending =>
    intro txn st hst hpend hno
    rcases eq_or_ne txn next with rfl | hne
    · exact absurd htxn (hno tid e true (by simp))
    · rw [Function.update_of_ne hne] at hst
      refine h.pending hst hpend fun t e' b hb => ?_
      refine hno t e' b ?_
      rw [Function.update_of_ne (by rintro rfl; rw [hidle] at hb; cases hb)]
      exact hb
  case beginning =>
    intro t e' b hb
    rcases update_mem hb with ⟨rfl, heq⟩ | ⟨-, hb⟩
    · cases heq
      refine ⟨he, ⟨_, by rw [htxn, Function.update_self], rfl, ?_⟩, fun _ => by rw [htxn, hrec]⟩
      rw [TxnState.obligation, obligation]
    · obtain ⟨hst, ⟨st, htx, hrest⟩, hknown⟩ := h.beginning hb
      exact ⟨hst, ⟨st, by rw [Function.update_of_ne (hbegun hb), htx], hrest⟩, hknown⟩
  case beginningUnique =>
    intro t t' e₁ e₂ b₁ b₂ hb hb' heq
    rcases update_mem hb with ⟨ht, hv⟩ | ⟨-, hold⟩ <;> rcases update_mem hb' with ⟨ht', hv'⟩ | ⟨-, hold'⟩
    · rw [ht, ht']
    · cases hv
      exact absurd (heq.symm.trans htxn) (hbegun hold')
    · cases hv'
      exact absurd (heq.trans htxn) (hbegun hold)
    · exact h.beginningUnique hold hold' heq
  case ending =>
    intro t e' d hd
    obtain ⟨htx, hst, hnot, hund, howed⟩ := h.ending hd
    refine ⟨htx, hst, ?_, hund, howed⟩
    rw [isPending_update]
    rintro (⟨heq, -⟩ | ⟨-, hp⟩)
    · exact absurd (h.freshEnding hd) (by rw [heq]; exact UInt64.lt_irrefl _)
    · exact hnot hp
  case endingUnique => exact h.endingUnique
  case rolled =>
    intro d hd
    obtain ⟨hroll, hnot⟩ := h.rolled hd
    refine ⟨hroll, ?_⟩
    rw [isPending_update]
    rintro (⟨heq, -⟩ | ⟨-, hp⟩)
    · have hrollback := hroll.rollback
      rw [heq, hrec] at hrollback
      cases hrollback
    · exact hnot hp
  case fresh =>
    intro txn hle
    have hne : txn ≠ next := by
      rintro rfl
      exact absurd hlt (UInt64.not_lt.mpr hle)
    rw [Function.update_of_ne hne]
    exact h.fresh (UInt64.le_of_lt (UInt64.lt_of_lt_of_le hlt hle))
  case freshEnding => exact fun hd => UInt64.lt_trans (h.freshEnding hd) hlt

theorem begun {slot : Option (PendingEntry × Bool)} {known' : UInt64 → TxnRecord}
    (h : Ledger txns next known begins ends owed) (hb : begins tid = some (e, true))
    (hslot : ∀ {e' b}, slot = some (e', b) → e' = e ∧ b = false)
    (hknown : ∀ {t}, t ≠ e.txnId → known' t = known t) (hdone : slot = none → Undecided known' (obligation e)) :
    Ledger txns next known' (Function.update begins tid slot) ends owed := by
  obtain ⟨he, ⟨st₀, hst₀, hpend₀, hobl⟩, -⟩ := h.beginning hb
  have hpending := h.isPending_of_begins hb
  have hold : ∀ {t e' b}, Function.update begins tid slot t = some (e', b) →
      t = tid ∧ e' = e ∧ b = false ∨ t ≠ tid ∧ begins t = some (e', b) := by
    intro t e' b ht
    rcases update_mem ht with ⟨heq, hv⟩ | hrest
    · exact Or.inl ⟨heq, hslot hv⟩
    · exact Or.inr hrest
  -- a slot in use keeps its transaction
  have hsame : ∀ {t e' b}, Function.update begins tid slot t = some (e', b) → ∃ b', begins t = some (e', b') := by
    intro t e' b ht
    rcases hold ht with ⟨rfl, rfl, -⟩ | ⟨-, hbt⟩
    · exact ⟨true, hb⟩
    · exact ⟨b, hbt⟩
  constructor
  case pending =>
    intro txn st hst hpend hno
    rcases eq_or_ne txn e.txnId with rfl | hne
    · rw [hst₀] at hst
      cases hst
      rw [hobl]
      cases hs : slot with
      | none => exact hdone hs
      | some v =>
        obtain ⟨heq, -⟩ := hslot hs
        exact absurd (by rw [heq]) (hno tid v.1 v.2 (by rw [Function.update_self, hs]))
    · refine (h.pending hst hpend fun t e' b hb' heq => ?_).congr (hknown hne)
      rcases eq_or_ne t tid with rfl | ht
      · rw [hb] at hb'
        cases hb'
        exact hne heq.symm
      · exact hno t e' b (by rw [Function.update_of_ne ht]; exact hb') heq
  case beginning =>
    intro t e' b ht
    rcases hold ht with ⟨rfl, rfl, rfl⟩ | ⟨hne, hbt⟩
    · exact ⟨he, ⟨st₀, hst₀, hpend₀, hobl⟩, fun h => nomatch h⟩
    · obtain ⟨hst, hex, hempty⟩ := h.beginning hbt
      refine ⟨hst, hex, fun hb' => ?_⟩
      rw [hknown fun heq => hne (h.beginningUnique hbt hb heq), hempty hb']
  case beginningUnique =>
    intro t t' e₁ e₂ b₁ b₂ ht ht' heq
    obtain ⟨_, hbt⟩ := hsame ht
    obtain ⟨_, hbt'⟩ := hsame ht'
    exact h.beginningUnique hbt hbt' heq
  case ending =>
    intro t e' d hd
    obtain ⟨htx, hst, hnot, hund, howed⟩ := h.ending hd
    exact ⟨htx, hst, hnot, fun hr => (hund hr).congr (hknown fun heq => hnot (heq ▸ hpending)), howed⟩
  case endingUnique => exact h.endingUnique
  case rolled =>
    intro d hd
    obtain ⟨hroll, hnot⟩ := h.rolled hd
    exact ⟨hroll.congr (hknown fun heq => hnot (heq ▸ hpending)), hnot⟩
  case fresh =>
    intro txn hle
    refine ⟨(h.fresh hle).1, ?_⟩
    rw [hknown, (h.fresh hle).2]
    rintro rfl
    exact absurd (h.lt_next hpending) (UInt64.not_lt.mpr hle)
  case freshEnding => exact h.freshEnding

theorem beginAcked (h : Ledger txns next known begins ends owed) (hb : begins tid = some (e, true)) :
    Ledger txns next (Function.update known e.txnId ((known e.txnId).add e)) (Function.update begins tid none) ends
      owed := by
  obtain ⟨he, -, hempty⟩ := h.beginning hb
  refine h.begun hb (fun hv => nomatch hv) (fun hne => Function.update_of_ne hne _ _) fun _ => ?_
  have hrec : Function.update known e.txnId ((known e.txnId).add e) (obligation e).txnId =
      { hasPending := true, pending := e } := by
    rw [show (obligation e).txnId = e.txnId from rfl, Function.update_self, hempty rfl, TxnRecord.add, he]
  exact ⟨by rw [hrec], by rw [hrec], by rw [hrec]; rfl⟩

theorem beginFailed (h : Ledger txns next known begins ends owed) (hb : begins tid = some (e, true))
    {known' : UInt64 → TxnRecord} (hknown : ∀ {t}, t ≠ e.txnId → known' t = known t) :
    Ledger txns next known' (Function.update begins tid (some (e, false))) ends owed := by
  refine h.begun hb (fun hv => ?_) hknown fun hnone => nomatch hnone
  cases hv
  exact ⟨rfl, rfl⟩

theorem shrink (h : Ledger txns next known begins ends owed) {txns' : UInt64 → Option TxnState}
    {begins' : Nat → Option (PendingEntry × Bool)}
    (htxns : ∀ {t st}, txns' t = some st → st.state = .pending → txns t = some st)
    (hnone : ∀ {t}, txns t = none → txns' t = none)
    (hkept : ∀ {t e b}, begins' t = some (e, b) → begins t = some (e, b) ∧ txns' e.txnId = txns e.txnId)
    (hgone : ∀ {t e b}, begins t = some (e, b) → begins' t = some (e, b) ∨ ¬ IsPending txns' e.txnId) :
    Ledger txns' next known begins' ends owed := by
  have hless : ∀ {t}, IsPending txns' t → IsPending txns t := fun ⟨st, hst, hp⟩ => ⟨st, htxns hst hp, hp⟩
  constructor
  case pending =>
    intro txn st hst hpend hno
    refine h.pending (htxns hst hpend) hpend fun t e b hb heq => ?_
    rcases hgone hb with hb' | hnot
    · exact hno t e b hb' heq
    · exact hnot (heq ▸ ⟨st, hst, hpend⟩)
  case beginning =>
    intro t e b hb
    obtain ⟨hold, htx⟩ := hkept hb
    obtain ⟨hst, hex, hknown⟩ := h.beginning hold
    exact ⟨hst, htx ▸ hex, hknown⟩
  case beginningUnique => exact fun hb hb' heq => h.beginningUnique (hkept hb).1 (hkept hb').1 heq
  case ending =>
    intro t e d hd
    obtain ⟨htx, hst, hnot, hrest⟩ := h.ending hd
    exact ⟨htx, hst, fun hp => hnot (hless hp), hrest⟩
  case endingUnique => exact h.endingUnique
  case rolled => exact fun hd => ⟨(h.rolled hd).1, fun hp => (h.rolled hd).2 (hless hp)⟩
  case fresh => exact fun hle => ⟨hnone (h.fresh hle).1, (h.fresh hle).2⟩
  case freshEnding => exact h.freshEnding

theorem undo (h : Ledger txns next known begins ends owed) (hb : begins tid = some (e, b)) :
    Ledger (Function.update txns e.txnId none) next known (Function.update begins tid none) ends owed := by
  refine h.shrink ?_ ?_ ?_ ?_
  · intro t st hst _
    rcases eq_or_ne t e.txnId with rfl | hne
    · simp at hst
    · rwa [Function.update_of_ne hne] at hst
  · intro t ht
    rcases eq_or_ne t e.txnId with rfl | hne
    · simp
    · rwa [Function.update_of_ne hne]
  · intro t e' b' ht
    obtain ⟨hne, hbt⟩ := update_none_mem ht
    exact ⟨hbt, Function.update_of_ne (fun heq => hne (h.beginningUnique hbt hb heq)) _ _⟩
  · intro t e' b' hbt
    rcases eq_or_ne t tid with rfl | hne
    · rw [hb] at hbt
      cases hbt
      refine Or.inr ?_
      rintro ⟨st, hst, -⟩
      simp at hst
    · exact Or.inl (by rw [Function.update_of_ne hne]; exact hbt)

theorem mark (h : Ledger txns next known begins ends owed) {st : TxnState} (hnew : st.state ≠ .pending)
    (hp : IsPending txns txn) (hno : ∀ tid e b, begins tid = some (e, b) → e.txnId ≠ txn) :
    Ledger (Function.update txns txn (some st)) next known begins ends owed := by
  refine h.shrink ?_ ?_ ?_ (fun hb => Or.inl hb)
  · intro t st' hst hpend
    rcases eq_or_ne t txn with rfl | hne
    · rw [Function.update_self] at hst
      cases hst
      exact absurd hpend hnew
    · rwa [Function.update_of_ne hne] at hst
  · intro t ht
    rcases eq_or_ne t txn with rfl | hne
    · obtain ⟨st', hst', -⟩ := hp
      rw [ht] at hst'
      cases hst'
    · rwa [Function.update_of_ne hne]
  · exact fun hb => ⟨hb, Function.update_of_ne (hno _ _ _ hb) _ _⟩

theorem finalize (h : Ledger txns next known begins ends owed) {st orig : TxnState} (hnew : st.state ≠ .pending)
    (horig : txns txn = some orig) (hpend : orig.state = .pending) (htxn : e.txnId = txn) (he : e.state ≠ .pending)
    (hno : ∀ tid e b, begins tid = some (e, b) → e.txnId ≠ txn) :
    Ledger (Function.update txns txn (some st)) next known begins
      (Function.update ends tid (some (e, orig.obligation txn))) owed := by
  have hp : IsPending txns txn := ⟨orig, horig, hpend⟩
  have hm := h.mark hnew hp hno
  have hfree : ∀ {t e' d'}, ends t = some (e', d') → d'.txnId ≠ txn := fun hd heq => (h.ending hd).2.2.1 (heq ▸ hp)
  constructor
  case pending => exact hm.pending
  case beginning => exact hm.beginning
  case beginningUnique => exact hm.beginningUnique
  case ending =>
    intro t e' d' hd
    rcases update_mem hd with ⟨-, hv⟩ | ⟨-, hold⟩
    · cases hv
      refine ⟨htxn, he, ?_, fun _ => h.pending horig hpend hno, fun d' hd' heq => (h.rolled hd').2 (heq ▸ hp)⟩
      rw [isPending_update]
      rintro (⟨-, hp'⟩ | ⟨hne, -⟩)
      · exact hnew hp'
      · exact hne rfl
    · exact hm.ending hold
  case endingUnique =>
    intro t t' e₁ e₂ d₁ d₂ hd hd' heq
    rcases update_mem hd with ⟨ht, hv⟩ | ⟨-, hold⟩ <;> rcases update_mem hd' with ⟨ht', hv'⟩ | ⟨-, hold'⟩
    · rw [ht, ht']
    · cases hv
      exact absurd heq.symm (hfree hold')
    · cases hv'
      exact absurd heq (hfree hold)
    · exact h.endingUnique hold hold' heq
  case rolled => exact hm.rolled
  case fresh => exact hm.fresh
  case freshEnding =>
    intro t e' d' hd
    rcases update_mem hd with ⟨-, hv⟩ | ⟨-, hold⟩
    · cases hv
      exact h.lt_next hp
    · exact h.freshEnding hold

theorem landed (h : Ledger txns next known begins ends owed) (hd : ends tid = some (e, d))
    (known' : UInt64 → TxnRecord) (hknown : ∀ {t}, t ≠ d.txnId → known' t = known t)
    {v : Option (PendingEntry × Obligation)} (hv : v = none ∨ v = some (e, d) ∧ e.state ≠ .rollback) :
    Ledger txns next known' begins (Function.update ends tid v) owed := by
  obtain ⟨-, -, hnot, -, howed⟩ := h.ending hd
  have hold : ∀ {t e' d'}, Function.update ends tid v t = some (e', d') →
      ends t = some (e', d') ∧ (d'.txnId = d.txnId → e'.state ≠ .rollback) := by
    intro t e' d' ht
    rcases update_mem ht with ⟨rfl, hvt⟩ | ⟨hne, hdt⟩
    · rcases hv with hv | ⟨hv, hstate⟩
      · rw [hv] at hvt
        cases hvt
      · rw [hv] at hvt
        cases hvt
        exact ⟨hd, fun _ => hstate⟩
    · exact ⟨hdt, fun heq => absurd (h.endingUnique hdt hd heq) hne⟩
  constructor
  case pending =>
    intro txn st hst hpend hno
    exact (h.pending hst hpend hno).congr (hknown fun heq => hnot (heq ▸ ⟨st, hst, hpend⟩))
  case beginning =>
    intro t e' b hb
    obtain ⟨hst, hex, hempty⟩ := h.beginning hb
    exact ⟨hst, hex, fun hb' => by
      rw [hknown fun heq => hnot (heq ▸ h.isPending_of_begins hb), hempty hb']⟩
  case beginningUnique => exact h.beginningUnique
  case ending =>
    intro t e' d' ht
    obtain ⟨hdt, hstate⟩ := hold ht
    obtain ⟨htx, hst, hnot', hund, howed'⟩ := h.ending hdt
    exact ⟨htx, hst, hnot', fun hr => (hund hr).congr (hknown fun heq => hstate heq hr), howed'⟩
  case endingUnique => exact fun ht ht' heq => h.endingUnique (hold ht).1 (hold ht').1 heq
  case rolled => exact fun hd' => ⟨(h.rolled hd').1.congr (hknown (howed _ hd')), (h.rolled hd').2⟩
  case fresh =>
    intro txn hle
    refine ⟨(h.fresh hle).1, ?_⟩
    rw [hknown, (h.fresh hle).2]
    rintro rfl
    exact absurd (h.freshEnding hd) (UInt64.not_lt.mpr hle)
  case freshEnding => exact fun ht => h.freshEnding (hold ht).1

/-- A ROLLBACK record is acknowledged: from now on its cleanup is owed. -/
theorem rollbackAcked (h : Ledger txns next known begins ends owed) (hd : ends tid = some (e, d))
    (he : e.state = .rollback) :
    Ledger txns next (Function.update known d.txnId ((known d.txnId).add e)) begins (Function.update ends tid none)
      (owed ++ [d]) := by
  obtain ⟨-, -, hnot, hund, -⟩ := h.ending hd
  have hrec : Function.update known d.txnId ((known d.txnId).add e) d.txnId =
      { known d.txnId with hasRollback := true } := by
    rw [Function.update_self, TxnRecord.add, he]
  have hroll : Rolled (Function.update known d.txnId ((known d.txnId).add e)) d :=
    ⟨by rw [hrec]; exact (hund he).committed, by rw [hrec], by rw [hrec]; exact (hund he).payload⟩
  have hl := h.landed hd (Function.update known d.txnId ((known d.txnId).add e))
    (fun hne => Function.update_of_ne hne _ _) (Or.inl rfl)
  refine ⟨hl.pending, hl.beginning, hl.beginningUnique, ?_, hl.endingUnique, ?_, hl.fresh, hl.freshEnding⟩
  · intro t e' d' ht
    obtain ⟨htx, hst, hnot', hund', howed⟩ := hl.ending ht
    refine ⟨htx, hst, hnot', hund', fun d'' hd'' => ?_⟩
    rcases List.mem_append.mp hd'' with hin | hin
    · exact howed d'' hin
    · rw [List.mem_singleton.mp hin]
      obtain ⟨hne, hdt⟩ := update_none_mem ht
      exact fun heq => hne (h.endingUnique hdt hd heq.symm)
  · intro d' hd'
    rcases List.mem_append.mp hd' with hin | hin
    · exact hl.rolled hin
    · rw [List.mem_singleton.mp hin]
      exact ⟨hroll, hnot⟩

theorem sweep (h : Ledger txns next known begins ends owed) :
    Ledger (fun txn => (txns txn).filter fun st => st.state == .pending) next known begins ends owed := by
  refine h.shrink ?_ ?_ ?_ (fun hb => Or.inl hb)
  · exact fun hst _ => (Option.filter_eq_some_iff.mp hst).1
  · intro t ht
    simp [ht]
  · intro t e b hb
    obtain ⟨-, ⟨st, hst, hpend, -⟩, -⟩ := h.beginning hb
    refine ⟨hb, ?_⟩
    simp [hst, hpend]

/-- A compaction forgets what is decided; nothing may be owed then. -/
theorem compact (h : Ledger txns next known begins ends []) {known' : UInt64 → TxnRecord}
    (hknown : ∀ t, known' t = if (known t).hasCommitted || (known t).hasRollback then {} else known t) :
    Ledger txns next known' begins ends [] := by
  have hund : ∀ {d}, Undecided known d → Undecided known' d := by
    intro d hd
    refine hd.congr ?_
    rw [hknown, hd.committed, hd.rollback]
    rfl
  have hempty : ∀ {t}, known t = {} → known' t = {} := by
    intro t ht
    rw [hknown, ht]
    rfl
  refine ⟨fun hst hpend hno => hund (h.pending hst hpend hno), ?_, h.beginningUnique, ?_, h.endingUnique,
    fun hd => (List.not_mem_nil hd).elim, fun hle => ⟨(h.fresh hle).1, hempty (h.fresh hle).2⟩, h.freshEnding⟩
  · intro t e b hb
    obtain ⟨hst, hex, hknown⟩ := h.beginning hb
    exact ⟨hst, hex, fun hb' => hempty (hknown hb')⟩
  · intro t e d hd
    obtain ⟨htx, hst, hnot, hu, howed⟩ := h.ending hd
    exact ⟨htx, hst, hnot, fun hr => hund (hu hr), howed⟩

theorem paid (h : Ledger txns next known begins ends owed) {owed' : List Obligation} (hsub : owed' ⊆ owed) :
    Ledger txns next known begins ends owed' := by
  refine ⟨h.pending, h.beginning, h.beginningUnique, ?_, h.endingUnique, fun hd => h.rolled (hsub hd), h.fresh,
    h.freshEnding⟩
  intro t e d hd
  obtain ⟨htx, hst, hnot, hund, howed⟩ := h.ending hd
  exact ⟨htx, hst, hnot, hund, fun d' hd' => howed d' (hsub hd')⟩

end Ledger

end Cortrix.Store.WriteCoordinator
