import Cortrix.Store.CleanupLedger

/-!
# The cleanups owed by rolled-back transactions

A ROLLBACK record with its PENDING record is all that reminds the coordinator of a cleanup. A compaction counts
the ROLLBACK as a verdict and drops both, and `Recover` compacts after a cleanup that failed.

* `owed_cleanup_invoked` : in runs that keep the cleanups the next `Recover` invokes the callback for every cleanup
  owed; `owed_cleanup_dropped` : a failed cleanup that a commit-triggered compaction forgets.
-/

namespace Cortrix.Store.WriteCoordinator
open Lib PendingLogWriter
open PendingEntry (Fits serialize stored)

namespace Call

/-- The record of a `BeginWrite` in flight, and whether it is still to be appended. -/
def beginning : Call → Option (PendingEntry × Bool)
  | .beginAppend e => some (e, true)
  | .beginUndo e _ => some (e, false)
  | _ => none

/-- The record a `Commit` or `Rollback` is about to append, with the payload of its transaction. -/
def ending : Call → Option (PendingEntry × Obligation)
  | .commitAppend e orig _ | .rollbackAppend e orig => some (e, orig.obligation e.txnId)
  | _ => none

/-- The record about to be appended fits and has the state its call gives it. -/
def Sound : Call → Prop
  | .beginAppend e => e.state = .pending ∧ Fits e
  | .commitAppend e .. => e.state = .committed
  | .rollbackAppend e _ => e.state = .rollback
  | _ => True

theorem Sound.fits {c : Call} {e : PendingEntry} (h : c.Sound) (he : c.record = some e) : Fits e := by
  cases c <;> cases he
  · exact h.2
  · intro hp
    rw [show e.state = .committed from h] at hp
    cases hp
  · intro hp
    rw [show e.state = .rollback from h] at hp
    cases hp

end Call

def begins (s : State) (tid : Nat) : Option (PendingEntry × Bool) := (s.calls tid).bind Call.beginning

def ends (s : State) (tid : Nat) : Option (PendingEntry × Obligation) := (s.calls tid).bind Call.ending

/-- What the log says about each transaction. -/
def known (s : State) : UInt64 → TxnRecord := txnRecord (scanRecords s.image).1

def KeepsCleanups (cfg : Config) (s : State) : Act → Prop
  | .begin _ docId blockIds _ _ _ => s.tables.nextTxnId.toNat + 1 < 2 ^ 64 ∧ Fits { docId, blockIds }
  | .commit _ txn _ | .rollback _ txn _ => ∀ tid e b, begins s tid = some (e, b) → e.txnId ≠ txn
  | .append .. => AtEnd s.image
  | .compact _ ok => ok = true → s.owed = []
  | .recover order outcome complete =>
    (maxTxn (readAll s.image).1).toNat + 1 < 2 ^ 64 ∧
    (∀ pre txn post, order = pre ++ txn :: post → AtEnd (resolveAll cfg s.image s.stores pre outcome).image) ∧
    (complete = true → ∀ txn ∈ order, (outcome txn).callbackOk = true)
  | _ => True

/-- The calls in flight, the table and the cleanups owed agree with the log. -/
structure Accounted (s : State) : Prop where
  headed : WellHeaded s.image
  fits : ∀ e ∈ (scanRecords s.image).1, Fits e
  plain : Plain s
  sound : ∀ {tid c}, s.calls tid = some c → c.Sound
  ledger : s.running = true →
    Ledger s.tables.activeTxns s.tables.nextTxnId (known s) (begins s) (ends s) s.owed
  down : s.running = false → (∀ tid, s.calls tid = none) ∧ (∀ txn, s.tables.activeTxns txn = none) ∧
    ∀ d ∈ s.owed, Due (scanRecords s.image).1 s.stores d

theorem Accounted.due {s : State} (h : Accounted s) {d : Obligation} (hd : d ∈ s.owed) :
    Due (scanRecords s.image).1 s.stores d := by
  cases hrun : s.running with
  | false => exact (h.down hrun).2.2 d hd
  | true =>
    obtain ⟨hroll, -⟩ := (h.ledger hrun).rolled hd
    exact ⟨hroll.committed, hroll.payload, Or.inl hroll.rollback⟩

theorem accounted_init (stores : Stores) : Accounted { stores } := by
  have hscan : (scanRecords makeHeader).1 = [] := by rw [scanRecords_makeHeader]
  refine ⟨WellHeaded.makeHeader_self, ?_, ?_, ?_, fun _ => ?_, fun h => nomatch h⟩
  · intro e he
    rw [hscan] at he
    cases he
  · intro tid e he
    cases he
  · intro tid c hc
    cases hc
  · refine Ledger.init fun txn _ => ?_
    rw [known, hscan, txnRecord_nil]

/-! ## Steps while the coordinator runs -/

section
variable {cfg : Config} {s s' : State} {a : Act} {tid : Nat} {e : PendingEntry} {c : Option Call}

theorem begins_update (hcalls : s'.calls = Function.update s.calls tid c) :
    begins s' = Function.update (begins s) tid (c.bind Call.beginning) := by
  funext t
  rw [begins, hcalls]
  rcases eq_or_ne t tid with rfl | hne
  · simp
  · simp [hne, begins]

theorem ends_update (hcalls : s'.calls = Function.update s.calls tid c) :
    ends s' = Function.update (ends s) tid (c.bind Call.ending) := by
  funext t
  rw [ends, hcalls]
  rcases eq_or_ne t tid with rfl | hne
  · simp
  · simp [hne, ends]

theorem begins_same (hcalls : s'.calls = Function.update s.calls tid c)
    (hrole : c.bind Call.beginning = (s.calls tid).bind Call.beginning) : begins s' = begins s := by
  rw [begins_update hcalls, hrole]
  exact Function.update_eq_self _ _

theorem ends_same (hcalls : s'.calls = Function.update s.calls tid c)
    (hrole : c.bind Call.ending = (s.calls tid).bind Call.ending) : ends s' = ends s := by
  rw [ends_update hcalls, hrole]
  exact Function.update_eq_self _ _

theorem Accounted.appendFits (h : Accounted s) (hrec : appending s tid = some e) : Fits e := by
  obtain ⟨c, hc, he⟩ := Option.bind_eq_some_iff.mp hrec
  exact (h.sound hc).fits he

theorem Accounted.known_append (h : Accounted s) {o : AppendOutcome} (hend : AtEnd s.image)
    (hrec : appending s tid = some e) (himage : s'.image = o.image s.image e.serialize) :
    known s' = Function.update (known s) e.txnId ((known s e.txnId).add e) ∨ o ≠ .ok ∧ known s' = known s := by
  rcases scanRecords_image o h.headed.le_length hend (h.appendFits hrec) with hscan | ⟨hne, hscan⟩
  · refine Or.inl (funext fun txn => ?_)
    rw [known, himage, hscan, h.plain tid e hrec, txnRecord_snoc]
    rcases eq_or_ne txn e.txnId with rfl | hne
    · simp [known]
    · simp [hne, hne.symm, known]
  · exact Or.inr ⟨hne, by rw [known, himage, hscan]; rfl⟩

theorem Accounted.known_of_ne (h : Accounted s) (o : AppendOutcome) (hend : AtEnd s.image)
    (hrec : appending s tid = some e) (himage : s'.image = o.image s.image e.serialize) {txn : UInt64}
    (hne : txn ≠ e.txnId) : known s' txn = known s txn := by
  rcases h.known_append hend hrec himage with heq | ⟨-, heq⟩
  · rw [heq, Function.update_of_ne hne]
  · rw [heq]

theorem Accounted.known_ok (h : Accounted s) (hend : AtEnd s.image) (hrec : appending s tid = some e)
    (himage : s'.image = AppendOutcome.ok.image s.image e.serialize) :
    known s' = Function.update (known s) e.txnId ((known s e.txnId).add e) := by
  rcases h.known_append hend hrec himage with heq | ⟨hne, -⟩
  · exact heq
  · exact absurd rfl hne

theorem Ledger.released {t : Tables} {known : UInt64 → TxnRecord} {begins : Nat → Option (PendingEntry × Bool)}
    {ends : Nat → Option (PendingEntry × Obligation)} {owed : List Obligation}
    (L : Ledger t.activeTxns t.nextTxnId known begins ends owed) (docId : Bytes) :
    Ledger (t.releaseDoc docId).activeTxns (t.releaseDoc docId).nextTxnId known begins ends owed := by
  obtain ⟨hnext, htxns⟩ := releaseDoc_txns t docId
  rw [hnext, htxns]
  exact L

theorem Ledger.counted {t : Tables} {known : UInt64 → TxnRecord} {begins : Nat → Option (PendingEntry × Bool)}
    {ends : Nat → Option (PendingEntry × Obligation)} {owed : List Obligation}
    (L : Ledger t.activeTxns t.nextTxnId known begins ends owed) (cfg : Config) :
    Ledger (t.countCommit cfg).2.activeTxns (t.countCommit cfg).2.nextTxnId known begins ends owed := by
  obtain ⟨hnext, htxns, -⟩ := countCommit_tables cfg t
  rw [hnext, htxns]
  exact L

theorem Accounted.ledger_next (h : Accounted s) (hrun : s.running = true) (hq : KeepsCleanups cfg s a)
    (hnext : Next cfg s a s') (hlive : ∀ order outcome complete, a ≠ .recover order outcome complete) :
    Ledger s'.tables.activeTxns s'.tables.nextTxnId (known s') (begins s') (ends s') s'.owed := by
  have L := h.ledger hrun
  have happ : ∀ {tid c e}, s.calls tid = some c → c.record = some e → appending s tid = some e := by
    intro tid c e hc he
    rw [appending, hc, Option.bind_some, he]
  cases hnext with
  | refused ha hrunning hidle st =>
    rw [begins_same (s := s) rfl (by rw [hidle]), ends_same (s := s) rfl (by rw [hidle])]
    exact L
  | begun hrunning hidle hres =>
    rename_i tid docId blockIds writesBlob scope now txn tables
    obtain ⟨-, htxn, htables⟩ := reserve_ok hres
    rw [begins_update (s := s) rfl, ends_same (s := s) rfl (by rw [hidle]; rfl), htables]
    have hidle' : begins s tid = none := by rw [begins, hidle, Option.bind_none]
    exact L.reserve (e := ⟨.pending, txn, now, docId, blockIds, writesBlob, scope⟩) hidle' rfl htxn hq.1
  | committing hrunning hidle hmark | rollingBack hrunning hidle hmark =>
    obtain ⟨horig, hpend, htables⟩ := checkAndMark_ok hmark
    rw [begins_same (s := s) rfl (by rw [hidle]; rfl), ends_update (s := s) rfl, htables]
    exact L.finalize (by simp) horig hpend rfl (by simp) hq
  | committingBlind hrunning hidle hneg hmark =>
    obtain ⟨horig, hpend, htables⟩ := checkAndMark_ok hmark
    rw [begins_same (s := s) rfl (by rw [hidle]; rfl), ends_same (s := s) rfl (by rw [hidle]; rfl), htables]
    exact L.mark (by simp) ⟨_, horig, hpend⟩ hq
  | beginAcked hc =>
    rw [begins_update (s := s) rfl, ends_same (s := s) rfl (by rw [hc]; rfl), h.known_ok hq (happ hc rfl) rfl]
    exact L.beginAcked (by rw [begins, hc]; rfl)
  | beginFailed hc =>
    rename_i landed err
    rw [begins_update (s := s) rfl, ends_same (s := s) rfl (by rw [hc]; rfl)]
    exact L.beginFailed (by rw [begins, hc]; rfl) fun hne => h.known_of_ne (.failed landed err) hq (happ hc rfl) rfl hne
  | commitAcked hc =>
    rw [begins_same (s := s) rfl (by rw [hc]; rfl), ends_update (s := s) rfl]
    exact L.landed (by rw [ends, hc]; rfl) _ (fun hne => h.known_of_ne .ok hq (happ hc rfl) rfl hne) (Or.inl rfl)
  | commitRetry hc =>
    rename_i landed err
    rw [begins_same (s := s) rfl (by rw [hc]; rfl), ends_update (s := s) rfl]
    have hstate := h.sound hc
    exact L.landed (by rw [ends, hc]; rfl) _ (fun hne => h.known_of_ne (.failed landed err) hq (happ hc rfl) rfl hne)
      (Or.inr ⟨rfl, by rw [show _ = PendingEntry.State.committed from hstate]; simp⟩)
  | commitFailed hc | rollbackFailed hc st =>
    rename_i landed err
    rw [begins_same (s := s) rfl (by rw [hc]; rfl), ends_update (s := s) rfl]
    exact L.landed (by rw [ends, hc]; rfl) _ (fun hne => h.known_of_ne (.failed landed err) hq (happ hc rfl) rfl hne)
      (Or.inl rfl)
  | rollbackAcked hc =>
    rw [begins_same (s := s) rfl (by rw [hc]; rfl), ends_update (s := s) rfl, h.known_ok hq (happ hc rfl) rfl]
    exact L.rollbackAcked (by rw [ends, hc]; rfl) (h.sound hc)
  | undone hc st =>
    rw [begins_update (s := s) rfl, ends_same (s := s) rfl (by rw [hc]; rfl)]
    exact L.undo (by rw [begins, hc]; rfl)
  | gaveUp hc st =>
    rename_i orig err
    rw [begins_same (s := s) rfl (by rw [hc]; rfl), ends_same (s := s) rfl (by rw [hc]; rfl)]
    exact L.released orig.docId
  | released hc =>
    rename_i orig
    rw [begins_same (s := s) rfl (by rw [hc]; rfl), ends_same (s := s) rfl (by rw [hc]; rfl)]
    exact L.released orig.docId
  | compactDue hc | committed hc =>
    rename_i orig
    rw [begins_same (s := s) rfl (by rw [hc]; rfl), ends_same (s := s) rfl (by rw [hc]; rfl)]
    exact (L.released orig.docId).counted cfg
  | swept hc =>
    rw [begins_same (s := s) rfl (by rw [hc]; rfl), ends_same (s := s) rfl (by rw [hc]; rfl)]
    exact L.sweep
  | compacted hc =>
    have hscan : (scanRecords (compact s.image)).1 = unfinished (scanRecords s.image).1 := by
      rw [scanRecords_compact h.fits]
    rw [begins_same (s := s) rfl (by rw [hc]; rfl), ends_same (s := s) rfl (by rw [hc]; rfl)]
    rw [hq rfl] at L
    change Ledger _ _ (txnRecord (scanRecords (compact s.image)).1) _ _ s.owed
    rw [hq rfl, hscan]
    exact L.compact fun txn => by rw [txnRecord_unfinished, finalized_eq_or]; rfl
  | compactFailed hc | cleanupFailed hc st =>
    rw [begins_same (s := s) rfl (by rw [hc]; rfl), ends_same (s := s) rfl (by rw [hc]; rfl)]
    exact L
  | cleaned hc =>
    rw [begins_same (s := s) rfl (by rw [hc]; rfl), ends_same (s := s) rfl (by rw [hc]; rfl)]
    exact L.paid List.filter_sublist.subset
  | wrote hlive => exact L
  | wroteLabel hlive => exact L
  | recovered hrec => exact absurd rfl (hlive _ _ _)

theorem Accounted.sound_next (h : Accounted s) (hq : KeepsCleanups cfg s a) (hnext : Next cfg s a s') {c : Call}
    (hc : s'.calls tid = some c) : c.Sound := by
  -- only the slot of the step changes
  have hset : ∀ {t : Nat} {v : Option Call}, (∀ c ∈ v, c.Sound) → Function.update s.calls t v tid = some c →
      c.Sound := by
    intro t v hv hupd
    rcases update_mem hupd with ⟨-, heq⟩ | ⟨-, hold⟩
    · exact hv c heq
    · exact h.sound hold
  cases hnext with
  | begun hrunning hidle hres => exact hset (by rintro _ ⟨⟩; exact ⟨rfl, fun _ => hq.2 rfl⟩) hc
  | committing hrunning hidle hmark => exact hset (by rintro _ ⟨⟩; exact rfl) hc
  | rollingBack hrunning hidle hmark => exact hset (by rintro _ ⟨⟩; exact rfl) hc
  | commitRetry hold =>
    have hstate := h.sound hold
    exact hset (by rintro _ ⟨⟩; exact hstate) hc
  | wrote hlive => exact h.sound hc
  | wroteLabel hlive => exact h.sound hc
  | recovered hrec =>
    simp only [stepRecover] at hrec
    repeat' split at hrec
    all_goals cases hrec
    all_goals cases hc
  | _ => exact hset (by simp [Call.Sound]) hc

theorem Accounted.file_next (h : Accounted s) (hq : KeepsCleanups cfg s a) (hnext : Next cfg s a s')
    (hlive : ∀ order outcome complete, a ≠ .recover order outcome complete) :
    WellHeaded s'.image ∧ ∀ e ∈ (scanRecords s'.image).1, Fits e := by
  cases hnext.log hlive with
  | same himage hacked ha => exact ⟨himage ▸ h.headed, himage ▸ h.fits⟩
  | append hrec himage hacked =>
    refine ⟨himage ▸ AppendOutcome.wellHeaded _ h.headed _, ?_⟩
    have hfit := h.appendFits hrec
    rcases scanRecords_image _ h.headed.le_length hq hfit with hscan | ⟨-, hscan⟩
    · rw [himage, hscan, h.plain _ _ hrec]
      intro e he
      rcases List.mem_append.mp he with he | he
      · exact h.fits e he
      · rw [List.mem_singleton.mp he]
        exact hfit
    · rw [himage, hscan]
      exact h.fits
  | compact himage hacked =>
    refine ⟨himage ▸ WellHeaded.compact _, ?_⟩
    rw [himage, scanRecords_compact h.fits]
    exact fun e he => h.fits e (mem_unfinished.mp he).1

/-- Outside recovery only a running coordinator moves, and it keeps running. -/
theorem Accounted.running_next (h : Accounted s) (hnext : Next cfg s a s')
    (hlive : ∀ order outcome complete, a ≠ .recover order outcome complete) :
    s.running = true ∧ s'.running = true := by
  have hkeep : s'.running = s.running := by
    cases hnext with
    | recovered hrec => exact absurd rfl (hlive _ _ _)
    | _ => rfl
  cases hrun : s.running with
  | true => exact ⟨rfl, hkeep.trans hrun⟩
  | false =>
    exfalso
    obtain ⟨hcalls, htxns, -⟩ := h.down hrun
    cases hnext with
    | refused ha hrunning hidle st | begun hrunning hidle hres | committing hrunning hidle hmark
    | committingBlind hrunning hidle hneg hmark | rollingBack hrunning hidle hmark =>
      exact absurd (hrunning.symm.trans hrun) (by simp)
    | wrote htxn => simp [live, htxns] at htxn
    | wroteLabel htxn => simp [live, htxns] at htxn
    | recovered hrec => exact hlive _ _ _ rfl
    | beginAcked hc | beginFailed hc | commitAcked hc | commitRetry hc | commitFailed hc | rollbackAcked hc
    | rollbackFailed hc | undone hc | gaveUp hc | compactDue hc | committed hc | swept hc | released hc
    | compacted hc | compactFailed hc | cleaned hc | cleanupFailed hc =>
      rw [hcalls] at hc
      cases hc

/-! ## Recover -/

theorem max_le_of_le {m n k : UInt64} : max m n ≤ k ↔ m ≤ k ∧ n ≤ k := by
  change (if m ≤ n then n else m) ≤ k ↔ _
  simp only [UInt64.le_iff_toNat_le]
  split <;> omega

theorem le_maxTxn {entries : List PendingEntry} (he : e ∈ entries) : e.txnId ≤ maxTxn entries := by
  have hmono : ∀ (entries : List PendingEntry) (m : UInt64),
      m ≤ entries.foldl (fun m e => max m e.txnId) m ∧
        ∀ e ∈ entries, e.txnId ≤ entries.foldl (fun m e => max m e.txnId) m := by
    intro entries
    induction entries with
    | nil => exact fun m => ⟨UInt64.le_refl m, fun e he => nomatch he⟩
    | cons f entries ih =>
      intro m
      obtain ⟨hm, hall⟩ := ih (max m f.txnId)
      refine ⟨(max_le_of_le.mp hm).1, fun e he => ?_⟩
      rcases List.mem_cons.mp he with rfl | he
      · exact (max_le_of_le.mp hm).2
      · exact hall e he
  exact (hmono entries 0).2 e he

theorem accounted_down {image : Bytes} {stores : Stores} {replies : List (Nat × Status)} {acked : List PendingEntry}
    {owed : List Obligation} (hheaded : WellHeaded image) (hfits : ∀ e ∈ (scanRecords image).1, Fits e)
    (hdue : ∀ d ∈ owed, Due (scanRecords image).1 stores d) :
    Accounted { stores, image, running := false, replies, acked, owed } :=
  ⟨hheaded, hfits, (fun _ _ he => nomatch he), (fun hc => nomatch hc), (fun hrun => nomatch hrun),
    fun _ => ⟨fun _ => rfl, fun _ => rfl, hdue⟩⟩

/-- A `Recover` that runs to its end with every callback succeeding leaves nothing owed. -/
theorem recover_pays (hlenient : cfg.strictRecovery = false) (h : Accounted s) {order : List UInt64}
    {outcome : UInt64 → Outcome} (horder : validOrder (readAll s.image).1 order true = true)
    (hcallback : ∀ txn ∈ order, (outcome txn).callbackOk = true) :
    ((s.owed ++ (resolveAll cfg s.image s.stores order outcome).invoked.map fun i => obligation i.1).filter fun d =>
      !(resolveAll cfg s.image s.stores order outcome).invoked.any fun i => i.2 && obligation i.1 == d) = [] := by
  have hok : ∀ i ∈ (resolveAll cfg s.image s.stores order outcome).invoked, i.2 = true := by
    intro i hi
    rcases foldl_invoked hlenient order rfl i hi with hnone | ⟨hmem, heq⟩
    · cases hnone
    · rw [heq, hcallback _ hmem]
  refine List.filter_eq_nil_iff.mpr fun d hd => ?_
  have hinvoked : ∃ i ∈ (resolveAll cfg s.image s.stores order outcome).invoked, obligation i.1 = d := by
    rcases List.mem_append.mp hd with hd | hd
    · exact resolveAll_invokes hlenient (h.due hd) horder
    · obtain ⟨i, hi, heq⟩ := List.mem_map.mp hd
      exact ⟨i, hi, heq⟩
  obtain ⟨i, hi, heq⟩ := hinvoked
  rw [Bool.not_eq_true, Bool.not_eq_false', List.any_eq_true]
  exact ⟨i, hi, by simp [hok i hi, heq]⟩

theorem Accounted.recover (hlenient : cfg.strictRecovery = false) (h : Accounted s) {order : List UInt64}
    {outcome : UInt64 → Outcome} {complete : Bool} (hq : KeepsCleanups cfg s (.recover order outcome complete))
    (hstep : stepRecover cfg s order outcome complete = some s') : Accounted s' := by
  obtain ⟨hnowrap, hend, hcallback⟩ := hq
  have hscan := congrArg Prod.fst (scanRecords_readAll h.headed.le_length)
  simp only [stepRecover] at hstep
  split at hstep
  · cases hstep
    refine accounted_down h.headed.readAll ?_ ?_
    · rw [hscan]
      exact h.fits
    · intro d hd
      rw [hscan]
      exact h.due hd
  split at hstep
  · cases hstep
  rename_i horder
  have horder' : validOrder (readAll s.image).1 order complete = true := by simpa using horder
  have R := resolveAll_resolving s.stores hlenient h.headed h.fits horder' hend
  -- what is still owed was owed before or has just been invoked
  have hdue : ∀ d ∈ s.owed ++ (resolveAll cfg s.image s.stores order outcome).invoked.map (fun i => obligation i.1),
      Due (scanRecords (resolveAll cfg s.image s.stores order outcome).image).1
        (resolveAll cfg s.image s.stores order outcome).stores d := by
    intro d hd
    rcases List.mem_append.mp hd with hd | hd
    · exact R.due d (h.due hd)
    · obtain ⟨i, hi, rfl⟩ := List.mem_map.mp hd
      exact R.invoked i hi
  split at hstep
  · cases hstep
    exact accounted_down R.headed R.fits fun d hd => hdue d (List.mem_filter.mp hd).1
  · rename_i hcomplete
    rw [R.going, Bool.false_or, Bool.not_eq_true', Bool.not_eq_false] at hcomplete
    subst hcomplete
    cases hstep
    have hpaid := recover_pays hlenient h horder' (hcallback rfl)
    have hcompact := congrArg Prod.fst (scanRecords_compact R.fits)
    refine ⟨WellHeaded.compact _, ?_, (by intro _ _ he; cases he), (by intro _ _ hc; cases hc), fun _ => ?_,
      (by intro hrun; cases hrun)⟩
    · intro e he
      rw [hcompact] at he
      exact R.fits e (mem_unfinished.mp he).1
    · change Ledger (fun _ => none) (maxTxn (readAll s.image).1 + 1) _ (fun _ => none) (fun _ => none) (List.filter _ _)
      rw [hpaid]
      refine Ledger.init fun txn hle => ?_
      rw [known, hcompact]
      refine txnRecord_of_forall_ne fun e he heq => ?_
      obtain ⟨e', he', htxn⟩ := List.mem_map.mp (List.mem_dedup.mp (R.ids e (mem_unfinished.mp he).1))
      have hlt := UInt64.lt_of_le_of_lt (le_maxTxn he') (lt_succ_of_noWrap hnowrap)
      rw [htxn, heq] at hlt
      exact absurd hlt (UInt64.not_lt.mpr hle)

theorem Accounted.step (hlenient : cfg.strictRecovery = false) (h : Accounted s) (hq : KeepsCleanups cfg s a)
    (hstep : step cfg s a = some s') : Accounted s' := by
  have hnext := step_next hstep
  by_cases hrec : ∃ order outcome complete, a = .recover order outcome complete
  · obtain ⟨order, outcome, complete, rfl⟩ := hrec
    exact h.recover hlenient hq hstep
  have hlive : ∀ order outcome complete, a ≠ .recover order outcome complete :=
    fun order outcome complete heq => hrec ⟨order, outcome, complete, heq⟩
  obtain ⟨hheaded, hfits⟩ := h.file_next hq hnext hlive
  obtain ⟨hrun, hrun'⟩ := h.running_next hnext hlive
  refine ⟨hheaded, hfits, h.plain.next hnext, h.sound_next hq hnext, fun _ => h.ledger_next hrun hq hnext hlive,
    fun hdown => ?_⟩
  rw [hrun'] at hdown
  cases hdown

end

/-- A `Recover` that is not refused meets every transaction of the log once. -/
theorem validOrder_of_recover {cfg : Config} {s s' : State} {order : List UInt64} {outcome : UInt64 → Outcome}
    {complete : Bool} (hsize : toInt32 (readAll s.image).1.length ≤ cfg.maxRecoveryEntries)
    (h : step cfg s (.recover order outcome complete) = some s') :
    validOrder (readAll s.image).1 order complete = true := by
  by_contra hinvalid
  simp only [step, stepRecover] at h
  rw [if_neg (Int.not_lt.mpr hsize), if_pos (by simpa using hinvalid)] at h
  cases h

/-- **No cleanup is forgotten** in a run whose steps keep the cleanups: the next lenient `Recover` that is not
refused invokes the callback for every cleanup owed, with the transaction's own payload. -/
theorem owed_cleanup_invoked (cfg : Config) (hlenient : cfg.strictRecovery = false) (stores : Stores) (acts : List Act)
    (s : State) (hrun : run (step cfg) { stores } acts = some s)
    (hkeeps : Along (step cfg) (KeepsCleanups cfg) { stores } acts) (d : Obligation) (hd : d ∈ s.owed)
    (order : List UInt64) (outcome : UInt64 → Outcome) (s' : State)
    (hsize : toInt32 (readAll s.image).1.length ≤ cfg.maxRecoveryEntries)
    (hrecover : step cfg s (.recover order outcome true) = some s') :
    ∃ i ∈ (resolveAll cfg s.image s.stores order outcome).invoked, obligation i.1 = d := by
  have h : Accounted s := run_inv (fun hi hq hstep => hi.step hlenient hq hstep) (accounted_init stores) hkeeps hrun
  exact resolveAll_invokes hlenient (h.due hd) (validOrder_of_recover hsize hrecover)

def failedCleanup : List Act :=
  [.begin 0 [0x64] [7] false .document 0, .append 0 .ok, .rollback 0 1 0, .append 0 .ok, .advance 0,
   .callback 0 false fun _ => true]

theorem owed_cleanup_invoked_failedCleanup :
    ∃ s s', run (step {}) { stores := emptyStores } failedCleanup = some s ∧
      s.owed = [⟨1, [0x64], [7], .document⟩] ∧ step {} s (.recover [1] (fun _ => {}) true) = some s' ∧
      ∃ i ∈ (resolveAll {} s.image s.stores [1] fun _ => {}).invoked,
        obligation i.1 = ⟨1, [0x64], [7], .document⟩ := by
  have hkeeps : Along (step {}) (KeepsCleanups {}) { stores := emptyStores } failedCleanup := by
    refine ⟨⟨by decide, by decide⟩, ?_, fun tid e b => ?_, ?_, trivial, trivial, trivial⟩
    · show AtEnd makeHeader
      decide +kernel
    · by_cases h : tid = 0
      · subst h
        exact fun h => nomatch h
      · simp [begins, setCall, reply]
    · show AtEnd (makeHeader ++ _)
      decide +kernel
  have hcrash : (run (step {}) { stores := emptyStores } failedCleanup).any (fun s =>
      s.owed == [⟨1, [0x64], [7], .document⟩] && decide (toInt32 (readAll s.image).1.length ≤ 10000) &&
        (step {} s (.recover [1] (fun _ => {}) true)).isSome) = true := by decide +kernel
  obtain ⟨s, hrun, hs⟩ := Option.any_eq_true _ _ |>.mp hcrash
  simp only [Bool.and_eq_true, beq_iff_eq, decide_eq_true_eq, Option.isSome_iff_exists] at hs
  obtain ⟨⟨howed, hsize⟩, s', hs'⟩ := hs
  refine ⟨s, s', hrun, howed, hs', ?_⟩
  exact owed_cleanup_invoked {} rfl emptyStores failedCleanup s hrun hkeeps _ (by rw [howed]; simp) [1] _ s' hsize hs'

/-- The same, then another document is committed and the commit compacts the log. -/
def failedCleanupCompacted : List Act :=
  failedCleanup ++ [.begin 0 [0x65] [8] false .document 0, .append 0 .ok, .commit 0 2 0, .append 0 .ok, .advance 0,
    .compact 0 true, .advance 0]

/-- The cleanup of the rolled-back transaction is still owed, and no `Recover` ever invokes it. -/
theorem owed_cleanup_dropped :
    ∃ s, run (step { compactThreshold := 1 }) { stores := emptyStores } failedCleanupCompacted = some s ∧
      s.owed = [⟨1, [0x64], [7], .document⟩] ∧
      ∀ order outcome s', step { compactThreshold := 1 } s (.recover order outcome true) = some s' →
        (resolveAll { compactThreshold := 1 } s.image s.stores order outcome).invoked = [] := by
  have hlost : (run (step { compactThreshold := 1 }) { stores := emptyStores } failedCleanupCompacted).any (fun s =>
      s.owed == [⟨1, [0x64], [7], .document⟩] && (readAll s.image).1 == []) = true := by decide +kernel
  obtain ⟨s, hrun, hs⟩ := Option.any_eq_true _ _ |>.mp hlost
  simp only [Bool.and_eq_true, beq_iff_eq] at hs
  refine ⟨s, hrun, hs.1, fun order outcome s' hrec => ?_⟩
  have hvalid := validOrder_of_recover (by rw [hs.2]; decide) hrec
  have horder : order = [] := by
    rw [validOrder, if_pos rfl, hs.2] at hvalid
    exact (List.isPerm_iff.mp hvalid).eq_nil
  rw [horder]
  rfl

end Cortrix.Store.WriteCoordinator
