import Cortrix.Spc.IngestWriteSet
import Cortrix.Store.CommittedRows

/-!
# An ingest that was fully written, recovered

The crash comes, or the COMMITTED record is lost, when every row of the write set is in the stores.

* `FullyWritten w st` : the stores hold the write set, under ids of its own;
* `fully_written_recovered_iff` : exactly when `Recover` settles it as committed.
-/

namespace Cortrix.Store.WriteCoordinator
open Lib PendingLogWriter
open Cortrix.Spc.Ingest (WriteSet Input ParsedDoc)

/-- The stores hold every row of the write set. Its block ids are its own: `blocks` has them as primary key, and no
other point stands under them. -/
structure FullyWritten (w : WriteSet) (st : Stores) : Prop where
  rows : ∀ row ∈ w.rows, st.rows row = true
  points : ∀ b ∈ w.blockIds, st.rows (.point b) = true → b ∈ w.vecPoints
  nodup : w.blockIds.Nodup

/-- Nothing but the PENDING record of the transaction is in the log. -/
def OnlyPending (entries : List PendingEntry) (txn : UInt64) (pending : PendingEntry) : Prop :=
  txnRecord entries txn = { hasPending := true, pending := pending }

/-- `Recover` on the image, the transactions in the order `order`: it invokes no cleanup of the transaction, appends
its COMMITTED record, and leaves the rows of the write set. -/
structure Recovered (cfg : Config) (image : Bytes) (st : Stores) (order : List UInt64) (outcome : UInt64 → Outcome)
    (txn : UInt64) (w : WriteSet) : Prop where
  uncleaned : ∀ i ∈ (resolveAll cfg image st order outcome).invoked, i.1.txnId ≠ txn
  committed : ∀ before after, order = before ++ txn :: after →
    (resolveAll cfg image st (before ++ [txn]) outcome).image =
      (outcome txn).append.image (resolveAll cfg image st before outcome).image
        (terminal false txn (outcome txn).now).serialize
  rows : ∀ row ∈ w.rows, (resolveAll cfg image st order outcome).stores.rows row = true

variable {cfg : Config} {image : Bytes} {st : Stores} {entries : List PendingEntry} {outcome : UInt64 → Outcome}
  {order : List UInt64} {txn txn' : UInt64} {w : WriteSet} {now : Int64} {r : Recovery}

/-! ## The three-way check -/

theorem FullyWritten.block (h : FullyWritten w st) {b : UInt64} (hb : b ∈ w.blockIds) : st.rows (.block b) = true :=
  h.rows _ (List.mem_append_right _ (List.mem_map_of_mem hb))

theorem FullyWritten.point_iff (h : FullyWritten w st) {b : UInt64} (hb : b ∈ w.blockIds) :
    st.rows (.point b) = true ↔ b ∈ w.vecPoints := by
  refine ⟨h.points b hb, fun hmem => h.rows _ ?_⟩
  unfold WriteSet.rows
  simp [hmem]

theorem FullyWritten.blockExists (h : FullyWritten w st) :
    st.blockExists w.blockIds = (w.blockIds.isEmpty || decide (w.blockIds.length ≤ st.maxVariables)) := by
  have hfilter : (w.blockIds.dedup.filter fun b => st.rows (.block b)) = w.blockIds := by
    rw [h.nodup.dedup, List.filter_eq_self]
    exact fun b hb => h.block hb
  unfold Stores.blockExists
  rw [hfilter, beq_self_eq_true, Bool.and_true]
  split
  · rename_i hempty
    rw [hempty, Bool.true_or]
  · rename_i hempty
    rw [Bool.not_eq_true] at hempty
    rw [hempty, Bool.false_or]

theorem allStoresHave_iff (h : FullyWritten w st) (txn : UInt64) (now : Int64) :
    st.allStoresHave (w.pending txn now) = true ↔ w.Pointed ∧ w.blockIds.length ≤ st.maxVariables := by
  unfold Stores.allStoresHave
  show (if (false && _) = true then false else if (!w.blockIds.isEmpty && !st.blockExists w.blockIds) = true then false
    else w.blockIds.all fun b => st.rows (.point b)) = true ↔ _
  rw [Bool.false_and, if_neg Bool.false_ne_true, h.blockExists]
  have hpoints : (w.blockIds.all fun b => st.rows (.point b)) = true ↔ w.Pointed := by
    rw [List.all_eq_true]
    exact forall₂_congr fun b hb => h.point_iff hb
  rcases hempty : w.blockIds.isEmpty
  · by_cases hlen : w.blockIds.length ≤ st.maxVariables
    · simp only [hlen, decide_true, Bool.false_or, Bool.not_false, Bool.not_true, Bool.and_false, Bool.false_eq_true,
        if_false, and_true]
      exact hpoints
    · simp [hlen]
  · have hnil := List.isEmpty_iff.mp hempty
    simp [WriteSet.Pointed, hnil]

theorem needsCleanup_iff (h : FullyWritten w st) (hlog : OnlyPending entries txn (w.pending txn now)) :
    (txnRecord entries txn).needsCleanup st = true ↔ ¬ (w.Pointed ∧ w.blockIds.length ≤ st.maxVariables) := by
  rw [hlog, ← allStoresHave_iff h txn now]
  simp [TxnRecord.needsCleanup]

/-! ## The loop of Recover -/

theorem resolveTxn_invoked (cfg : Config) (entries : List PendingEntry) (outcome : UInt64 → Outcome) (r : Recovery)
    (txn : UInt64) :
    (resolveTxn cfg entries outcome r txn).invoked = r.invoked ∨
      (txnRecord entries txn).needsCleanup r.stores = true ∧ (resolveTxn cfg entries outcome r txn).invoked =
        r.invoked ++ [((txnRecord entries txn).payload txn, (outcome txn).callbackOk)] := by
  unfold resolveTxn
  dsimp only
  split
  · exact .inl rfl
  · rcases hclean : (txnRecord entries txn).needsCleanup r.stores
    · left
      simp only [Bool.false_eq_true, if_false]
      repeat' split
      all_goals rfl
    · right
      refine ⟨rfl, ?_⟩
      simp only [if_true]
      repeat' split
      all_goals rfl

theorem foldl_aborted (cfg : Config) (entries : List PendingEntry) (outcome : UInt64 → Outcome) (order : List UInt64)
    (h : r.aborted = true) : order.foldl (resolveTxn cfg entries outcome) r = r := by
  induction order with
  | nil => rfl
  | cons txn order ih =>
    have hstay : resolveTxn cfg entries outcome r txn = r := by
      unfold resolveTxn
      simp [h]
    rw [List.foldl_cons, hstay, ih]

theorem aborted_of_append {before after : List UInt64}
    (h : (resolveAll cfg image st (before ++ after) outcome).aborted = false) :
    (resolveAll cfg image st before outcome).aborted = false := by
  rw [Bool.eq_false_iff]
  intro hab
  unfold resolveAll at h hab
  rw [List.foldl_append, foldl_aborted _ _ _ _ hab, hab] at h
  cases h

theorem resolveTxn_goes_on (h : r.aborted = false) :
    (resolveTxn cfg entries (fun _ => {}) r txn).aborted = false := by
  unfold resolveTxn
  simp only [h, Bool.false_or]
  repeat' split
  all_goals first | exact h | simp_all

theorem resolveAll_goes_on (cfg : Config) (image : Bytes) (st : Stores) (order : List UInt64) :
    (resolveAll cfg image st order fun _ => {}).aborted = false := by
  unfold resolveAll
  induction order using List.reverseRecOn with
  | nil => rfl
  | append_singleton order txn ih =>
    rw [List.foldl_append]
    exact resolveTxn_goes_on ih

theorem sheltered_start (image : Bytes) (st : Stores) :
    Sheltered (readAll image).1 st { image := (readAll image).2, stores := st } :=
  ⟨Stores.Shrunk.refl _, fun _ => rfl⟩

theorem foldl_uncleaned (hids : FreshIds entries st) (hno : ¬ (txnRecord entries txn).needsCleanup st = true)
    (hsh : Sheltered entries st r) (hr : ∀ i ∈ r.invoked, i.1.txnId ≠ txn) (order : List UInt64) :
    ∀ i ∈ (order.foldl (resolveTxn cfg entries outcome) r).invoked, i.1.txnId ≠ txn := by
  induction order generalizing r with
  | nil => exact hr
  | cons txn' order ih =>
    refine ih (hsh.turn hids txn') ?_
    rcases resolveTxn_invoked cfg entries outcome r txn' with hsame | ⟨hneeds, hnew⟩
    · rw [hsame]
      exact hr
    · rw [hnew]
      intro i hi
      rcases List.mem_append.mp hi with hold | hlast
      · exact hr i hold
      · rw [List.mem_singleton.mp hlast]
        rintro rfl
        exact hno (hsh.needsCleanup hids hneeds)

theorem resolveTxn_committed {pending : PendingEntry} (hlog : OnlyPending entries txn pending)
    (hno : (txnRecord entries txn).needsCleanup r.stores = false) (hr : r.aborted = false) :
    (resolveTxn cfg entries outcome r txn).image =
      (outcome txn).append.image r.image (terminal false txn (outcome txn).now).serialize := by
  unfold resolveTxn
  dsimp only
  rw [hno, hlog]
  simp [hr, terminal]

theorem resolveAll_cleaned (cfg : Config) (hneeds : (txnRecord (readAll image).1 txn).needsCleanup st = true)
    (order : List UInt64) :
    ∃ i ∈ (resolveAll cfg image st (txn :: order) fun _ => {}).invoked, i.1.txnId = txn := by
  have hfirst : ((txnRecord (readAll image).1 txn).payload txn, true) ∈
      (resolveTxn cfg (readAll image).1 (fun _ => {}) { image := (readAll image).2, stores := st } txn).invoked := by
    have hopen : (txnRecord (readAll image).1 txn).hasCommitted = false := (Due.of_needsCleanup hneeds).open_
    unfold resolveTxn
    simp only [hopen, hneeds, Bool.false_or, Bool.not_true, Bool.false_and, Bool.false_eq_true, if_false, if_true]
    split <;> exact List.mem_append_right _ List.mem_cons_self
  -- the invocations stay
  have hkeep : ∀ (order : List UInt64) (r : Recovery), ∀ i ∈ r.invoked,
      i ∈ (order.foldl (resolveTxn cfg (readAll image).1 fun _ => {}) r).invoked := by
    intro order
    induction order with
    | nil => exact fun _ _ hi => hi
    | cons txn' order ih =>
      intro r i hi
      apply ih
      rcases resolveTxn_invoked cfg (readAll image).1 (fun _ => {}) r txn' with hsame | ⟨-, hnew⟩
      · rw [hsame]
        exact hi
      · rw [hnew]
        exact List.mem_append_left _ hi
  refine ⟨_, hkeep order _ _ hfirst, ?_⟩
  rfl

theorem validOrder_first (h : txn ∈ txnIds entries) :
    validOrder entries (txn :: (txnIds entries).erase txn) true = true := by
  rw [validOrder, if_pos rfl]
  exact List.isPerm_iff.mpr (List.perm_cons_erase h).symm

theorem OnlyPending.mem_txnIds {pending : PendingEntry} (h : OnlyPending entries txn pending) :
    txn ∈ txnIds entries := by
  have hne : txnRecord entries txn ≠ {} := by
    intro heq
    rw [h] at heq
    cases heq
  obtain ⟨e, he, rfl⟩ := exists_mem_of_txnRecord hne
  exact List.mem_dedup.mpr (List.mem_map_of_mem he)

/-- With nothing to clean up for it and nothing else in reach of its rows, the transaction is settled as COMMITTED. -/
theorem recovered_of (hwritten : FullyWritten w st) (hlog : OnlyPending (readAll image).1 txn (w.pending txn now))
    (hids : FreshIds (readAll image).1 st) (hpointed : w.Pointed) (hlen : w.blockIds.length ≤ st.maxVariables)
    (hfar : ∀ txn' ∈ txnIds (readAll image).1, txn' ≠ txn → ∀ row ∈ w.rows, ¬ Reaches (readAll image).1 st txn' row)
    (hend : (resolveAll cfg image st order outcome).aborted = false) :
    Recovered cfg image st order outcome txn w := by
  have hno : ¬ (txnRecord (readAll image).1 txn).needsCleanup st = true := by
    rw [needsCleanup_iff hwritten hlog, not_not]
    exact ⟨hpointed, hlen⟩
  have hstart := sheltered_start image st
  refine ⟨?_, ?_, ?_⟩
  · exact foldl_uncleaned hids hno hstart (fun i hi => by cases hi) order
  · rintro before after rfl
    rw [List.append_cons] at hend
    have hgoing := aborted_of_append (aborted_of_append hend)
    have hsh : Sheltered (readAll image).1 st (resolveAll cfg image st before outcome) := hstart.foldl hids before
    have hturn : (txnRecord (readAll image).1 txn).needsCleanup
        (resolveAll cfg image st before outcome).stores = false := by
      rw [Bool.eq_false_iff]
      exact fun hneeds => hno (hsh.needsCleanup hids hneeds)
    have hstep : resolveAll cfg image st (before ++ [txn]) outcome =
        resolveTxn cfg (readAll image).1 outcome (resolveAll cfg image st before outcome) txn := by
      unfold resolveAll
      rw [List.foldl_append]
      rfl
    rw [hstep]
    exact resolveTxn_committed hlog hturn hgoing
  · intro row hrow
    unfold resolveAll
    rw [(hstart.foldl hids order).kept, hwritten.rows row hrow]
    intro txn' hreach
    rcases eq_or_ne txn' txn with rfl | hne
    · exact hno hreach.1
    · exact hfar txn' (Due.of_needsCleanup hreach.1).mem_txnIds hne row hrow hreach

/-- **A fully written ingest and its recovery.** Whatever was ingested, when all of its rows are in the stores and the
log holds its PENDING record only: every `Recover` that runs to its end settles the transaction as COMMITTED and keeps
its rows, if and only if every block got a point, the statement that counts the blocks prepares, and no other
transaction that `Recover` cleans up reaches a row of it. -/
theorem fully_written_recovered_iff (cfg : Config) (image : Bytes) (st : Stores) (input : Input) (txn : UInt64)
    (now : Int64) (hlog : OnlyPending (readAll image).1 txn (input.writeSet.pending txn now))
    (hwritten : FullyWritten input.writeSet st) (hids : FreshIds (readAll image).1 st) :
    (∀ order outcome, validOrder (readAll image).1 order true = true →
      (resolveAll cfg image st order outcome).aborted = false →
        Recovered cfg image st order outcome txn input.writeSet) ↔
      (input.writeSet.Pointed ∧ input.writeSet.blockIds.length ≤ st.maxVariables) ∧
        ∀ txn' ∈ txnIds (readAll image).1, txn' ≠ txn → ∀ row ∈ input.writeSet.rows,
          ¬ Reaches (readAll image).1 st txn' row := by
  constructor
  · intro hall
    refine ⟨?_, fun txn' hmem _ row hrow hreach => ?_⟩
    · by_contra hnot
      have hneeds := (needsCleanup_iff hwritten hlog).mpr hnot
      obtain ⟨i, hi, htxn⟩ := resolveAll_cleaned cfg hneeds ((txnIds (readAll image).1).erase txn)
      exact (hall _ _ (validOrder_first hlog.mem_txnIds) (resolveAll_goes_on cfg image st _)).uncleaned i hi htxn
    · have hkept := (hall _ _ (validOrder_first hmem) (resolveAll_goes_on cfg image st _)).rows row hrow
      rw [reached_row_lost cfg hreach] at hkept
      cases hkept
  · rintro ⟨⟨hpointed, hlen⟩, hfar⟩ order outcome - hend
    exact recovered_of hwritten hlog hids hpointed hlen hfar hend

/-! ## A document, at two levels -/

def oneChunk (level : UInt8) : Input :=
  .parsed { docId := [0x64], level, children := [{ blockId := 7 }], metaBlock := some { blockId := 8 }
            parents := [[0x70]] }

def writeAll (w : WriteSet) (txn : UInt64) : List Act := w.rows.map (Act.write txn)

/-- The document is written and the process dies before the COMMITTED record. -/
def writtenUncommitted (level : UInt8) : List Act :=
  [.begin 0 [0x64] (oneChunk level).writeSet.blockIds false .document 0, .append 0 .ok] ++
    writeAll (oneChunk level).writeSet 1

instance (w : WriteSet) (st : Stores) : Decidable (FullyWritten w st) :=
  -- through the list of the blocks, not through all block ids
  haveI : Decidable (∀ b ∈ w.blockIds, st.rows (.point b) = true → b ∈ w.vecPoints) := List.decidableBAll _ _
  decidable_of_iff ((∀ row ∈ w.rows, st.rows row = true) ∧
    (∀ b ∈ w.blockIds, st.rows (.point b) = true → b ∈ w.vecPoints) ∧ w.blockIds.Nodup)
    ⟨fun ⟨h1, h2, h3⟩ => ⟨h1, h2, h3⟩, fun h => ⟨h.rows, h.points, h.nodup⟩⟩

/-- At the full level every block has a point, and the transaction is recovered as committed. -/
theorem fully_written_recovered_iff_full :
    ∃ s, run (step {}) { stores := emptyStores } (writtenUncommitted 3) = some s ∧
      s.stores.rows (.block 7) = true ∧ ∀ order outcome, validOrder (readAll s.image).1 order true = true →
        (resolveAll {} s.image s.stores order outcome).aborted = false →
          Recovered {} s.image s.stores order outcome 1 (oneChunk 3).writeSet := by
  have hstate : (run (step {}) { stores := emptyStores } (writtenUncommitted 3)).any (fun s =>
      (readAll s.image).1 == [(oneChunk 3).writeSet.pending 1 0] &&
        decide (FullyWritten (oneChunk 3).writeSet s.stores)) = true := by decide +kernel
  obtain ⟨s, hrun, hs⟩ := Option.any_eq_true _ _ |>.mp hstate
  simp only [Bool.and_eq_true, beq_iff_eq, decide_eq_true_eq] at hs
  obtain ⟨hlog, hwritten⟩ := hs
  have hlabels : s.stores.labels = fun _ => none := by
    cases hrun
    rfl
  have hmax : s.stores.maxVariables = 32766 := by
    cases hrun
    rfl
  refine ⟨s, hrun, hwritten.block (by decide), ?_⟩
  refine (fully_written_recovered_iff {} s.image s.stores (oneChunk 3) 1 0 ?_ hwritten ?_).mpr ⟨⟨by decide, ?_⟩, ?_⟩
  · rw [hlog]
    rfl
  · rw [hlog]
    refine ⟨by simp, fun e _ b _ => by rw [hlabels]⟩
  · rw [hmax]
    decide
  · rw [hlog]
    intro txn' hmem hne
    exact absurd (List.mem_singleton.mp hmem) hne

/-- At level 2 no block has a point: `Recover` takes the document for half written and removes it. -/
theorem level_two_destroyed :
    ∃ s s', run (step {}) { stores := emptyStores } (writtenUncommitted 2) = some s ∧
      OnlyPending (readAll s.image).1 1 ((oneChunk 2).writeSet.pending 1 0) ∧
      FullyWritten (oneChunk 2).writeSet s.stores ∧ step {} s (.recover [1] (fun _ => {}) true) = some s' ∧
      s.stores.rows (.block 7) = true ∧ s'.stores.rows (.block 7) = false ∧
      s'.stores.rows (.parent [0x70] [0x64]) = false ∧ s'.stores.rows (.docFts [0x64]) = false := by
  have hlost : (run (step {}) { stores := emptyStores } (writtenUncommitted 2)).any (fun s =>
      (readAll s.image).1 == [(oneChunk 2).writeSet.pending 1 0] &&
        decide (FullyWritten (oneChunk 2).writeSet s.stores) &&
        (step {} s (.recover [1] (fun _ => {}) true)).any fun s' =>
          !s'.stores.rows (.block 7) && !s'.stores.rows (.parent [0x70] [0x64]) && !s'.stores.rows (.docFts [0x64])) =
      true := by decide +kernel
  simp only [Option.any_eq_true, Bool.and_eq_true, beq_iff_eq, decide_eq_true_eq, Bool.not_eq_true'] at hlost
  obtain ⟨s, hrun, ⟨hlog, hwritten⟩, s', hstep, ⟨hblock, hparent⟩, hfts⟩ := hlost
  refine ⟨s, s', hrun, ?_, hwritten, hstep, hwritten.block (by decide), hblock, hparent, hfts⟩
  rw [hlog]
  rfl

end Cortrix.Store.WriteCoordinator
