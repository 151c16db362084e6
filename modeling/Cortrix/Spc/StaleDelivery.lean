import Cortrix.Lib.Run
import Cortrix.Spc.EnrichStateStore

/-!
# Stale deliveries

Deliveries of the backfill worker over one `enrich_state` table, any number of them, interleaved statement by statement
with the operator's reset, the audit's settle and re-owe, the sweeper's lease and `MakeAllPendingDueNow`. A delivery reads
its rows, settles the ones that owe nothing, charges the others and flips each one once with the outcome it computed.

* `generation_step` : a step moves the generation of a row exactly when it is a transition of it;
* `stale_write_dropped_iff` : a stale flip or settle changes nothing as long as the generation of the row fits the
  `int` it is read into.
-/

namespace Cortrix.Spc.StaleDelivery
open Lib

inductive Phase
  | settling | charging | flipping
  deriving DecidableEq

structure Delivery where
  snapshot : List EnrichStateRow
  phase : Phase

structure State where
  rows : List EnrichStateRow
  blocks : List Nat
  deliveries : List Delivery

structure Outcome where
  status : EnrichStatus
  failedMembers : String
  lastError : Bytes
  nextRetryAt : Int
  updatedAt : Int

inductive Act
  /-- A new delivery reads the pending rows of a document. -/
  | read (docId : String)
  | settle (d b : Nat) (now : Int)
  | charge (d : Nat) (ids : List Nat) (now terminalAt : Int) (chunks : Nat)
  | flip (d b : Nat) (o : Outcome)
  | reset (now : Int)
  | settleTerminal (b : Nat) (now : Int)
  | reowe (w : EnrichStateRow) (terminalAt : Int)
  | lease (docId : String) (leaseUntil now : Int)
  | makeAllPendingDueNow (now : Int)

/-- The row a delivery writes at its end: one more attempt than it has read, and the outcome. -/
def flipped (snap : EnrichStateRow) (o : Outcome) : EnrichStateRow :=
  { snap with
    status := o.status
    failedMembers := o.failedMembers
    attempts := toInt (snap.attempts + 1)
    lastError := o.lastError
    nextRetryAt := some o.nextRetryAt
    updatedAt := o.updatedAt }

/-- The row a delivery writes for one that owes nothing: the attempts as they were read. -/
def settled (snap : EnrichStateRow) (now : Int) : EnrichStateRow :=
  { snap with status := .ok, failedMembers := "", lastError := [], nextRetryAt := none, updatedAt := now }

def State.setPhase (s : State) (d : Nat) (phase : Phase) : State :=
  { s with deliveries := s.deliveries.modify d fun x => { x with phase } }

/-- The end-of-run write of a delivery for a row of its snapshot. -/
def write (s : State) (snap w : EnrichStateRow) : State :=
  { s with rows := flipEnrichStateIfGeneration w snap.generation s.rows }

def step (s : State) : Act → Option State
  | .read docId => some { s with deliveries := s.deliveries ++ [⟨listEnrichStateForDoc docId s.rows, .settling⟩] }
  | .settle d b now => do
    let x ← s.deliveries[d]?
    let snap ← rowOf b x.snapshot
    if x.phase = .settling then some (write s snap (settled snap now)) else none
  | .charge d ids now terminalAt chunks => do
    let x ← s.deliveries[d]?
    if x.phase ≠ .flipping ∧ ∀ b ∈ ids, b ∈ x.snapshot.map EnrichStateRow.blockId then
      some ({ s with rows := chargeEnrichAttempts ids now terminalAt chunks s.rows }.setPhase d .charging)
    else none
  | .flip d b o => do
    let x ← s.deliveries[d]?
    let snap ← rowOf b x.snapshot
    if x.phase ≠ .settling then some ((write s snap (flipped snap o)).setPhase d .flipping) else none
  | .reset now => some { s with rows := resetGivenUpEnrichRows s.blocks now s.rows }
  | .settleTerminal b now => some { s with rows := settleTerminalRow b now s.rows }
  | .reowe w terminalAt => some { s with rows := reoweEnrichState w terminalAt s.rows }
  | .lease docId leaseUntil now => some { s with rows := leaseDocRetries docId leaseUntil now s.rows }
  | .makeAllPendingDueNow now => some { s with rows := makeAllPendingDueNow now s.rows }

/-- The step resets, settles or re-owes the row of the block. -/
def transition (b : Nat) (s : State) (a : Act) : Bool :=
  match rowOf b s.rows with
  | none => false
  | some r =>
    match a with
    | .reset _ => r.isGivenUp && s.blocks.contains b
    | .settleTerminal b' _ => b == b' && r.isGivenUp
    | .reowe w _ => b == w.blockId
    | _ => false

/-! ## Generations -/

variable {s s' : State} {a : Act} {b d : Nat} {r : EnrichStateRow}

theorem rowOf_blockId {rows : List EnrichStateRow} (h : rowOf b rows = some r) : r.blockId = b :=
  (lookup_eq_some h).2

theorem generation_updateWhere {p : EnrichStateRow → Bool} {f : EnrichStateRow → EnrichStateRow} {k : Int}
    {rows : List EnrichStateRow} (hid : ∀ r, (f r).blockId = r.blockId)
    (hgen : ∀ r, (f r).generation = r.generation + k) (hrow : rowOf b rows = some r) :
    ∃ r', rowOf b (updateWhere p f rows) = some r' ∧ r'.generation = r.generation + if p r then k else 0 := by
  rw [rowOf_updateWhere hid, hrow]
  refine ⟨_, rfl, ?_⟩
  dsimp only
  split
  · exact hgen r
  · exact (Int.add_zero _).symm

theorem generation_flip {w : EnrichStateRow} {g : Int} {rows : List EnrichStateRow} (hrow : rowOf b rows = some r) :
    ∃ r', rowOf b (flipEnrichStateIfGeneration w g rows) = some r' ∧ r'.generation = r.generation := by
  obtain ⟨r', hr', hg⟩ := generation_updateWhere (p := fun r => r.blockId == w.blockId && r.generation == g)
    (f := w.flip) (fun _ => rfl) (fun _ => (Int.add_zero _).symm) hrow
  exact ⟨r', hr', by simpa using hg⟩

theorem generation_step (hrow : rowOf b s.rows = some r) (h : step s a = some s') :
    ∃ r', rowOf b s'.rows = some r' ∧ r'.generation = r.generation + if transition b s a then 1 else 0 := by
  have hb := rowOf_blockId hrow
  cases a with
  | read docId =>
    cases h
    exact ⟨r, hrow, by simp [transition, hrow]⟩
  | settle d b' now | flip d b' o =>
    simp only [step, Option.bind_eq_bind, Option.bind_eq_some_iff] at h
    obtain ⟨x, -, snap, -, h⟩ := h
    split at h
    · cases h
      obtain ⟨r', hr', hg⟩ := generation_flip hrow
      exact ⟨r', hr', by simpa [transition, hrow] using hg⟩
    · cases h
  | charge d ids now terminalAt chunks =>
    simp only [step, Option.bind_eq_bind, Option.bind_eq_some_iff] at h
    obtain ⟨x, -, h⟩ := h
    split at h
    · cases h
      obtain ⟨r', hr', hg⟩ := rowOf_chargeEnrichAttempts ids now terminalAt chunks
        (P := fun r' => r'.generation = r.generation) (fun _ h' => h') ⟨r, hrow, rfl⟩
      exact ⟨r', hr', by simpa [transition, hrow] using hg⟩
    · cases h
  | reset now =>
    cases h
    obtain ⟨r', hr', hg⟩ := generation_updateWhere (p := fun r => r.isGivenUp && s.blocks.contains r.blockId)
      (f := EnrichStateRow.reset now) (fun _ => rfl) (fun _ => rfl) hrow
    exact ⟨r', hr', by simpa [transition, hrow, hb] using hg⟩
  | settleTerminal b' now =>
    cases h
    obtain ⟨r', hr', hg⟩ := generation_updateWhere (p := fun r => r.blockId == b' && r.isGivenUp)
      (f := EnrichStateRow.settle now) (fun _ => rfl) (fun _ => rfl) hrow
    exact ⟨r', hr', by simpa [transition, hrow, hb] using hg⟩
  | reowe w terminalAt =>
    cases h
    refine ⟨_, rowOf_reoweEnrichState w terminalAt hrow, ?_⟩
    simp only [transition, hrow, hb]
    split
    · rfl
    · exact (Int.add_zero _).symm
  | lease docId leaseUntil now =>
    cases h
    obtain ⟨r', hr', hg⟩ := generation_updateWhere (p := fun r => r.docId == docId && r.isPending)
      (f := fun r => { r with nextRetryAt := some leaseUntil, updatedAt := now }) (fun _ => rfl)
      (fun _ => (Int.add_zero _).symm) hrow
    exact ⟨r', hr', by simpa [transition, hrow] using hg⟩
  | makeAllPendingDueNow now =>
    cases h
    obtain ⟨r', hr', hg⟩ := generation_updateWhere
      (p := fun r => r.isPending && r.nextRetryAt.all fun n => decide (now < n))
      (f := fun r => { r with nextRetryAt := some now, updatedAt := now }) (fun _ => rfl)
      (fun _ => (Int.add_zero _).symm) hrow
    exact ⟨r', hr', by simpa [transition, hrow] using hg⟩

/-! ## Runs -/

theorem generation_run {acts : List Act} (hrow : rowOf b s.rows = some r) (h : run step s acts = some s') :
    ∃ r', rowOf b s'.rows = some r' ∧ r.generation ≤ r'.generation := by
  refine run_inv (I := fun u => ∃ r', rowOf b u.rows = some r' ∧ r.generation ≤ r'.generation) ?_ ⟨r, hrow, le_refl _⟩
    (along_true s acts) h
  rintro u a u' ⟨r', hr', hle⟩ - hstep
  obtain ⟨r'', hr'', hg⟩ := generation_step hr' hstep
  refine ⟨r'', hr'', ?_⟩
  split at hg <;> omega

theorem generation_run_quiet {acts : List Act} (hrow : rowOf b s.rows = some r) (h : run step s acts = some s')
    (hquiet : Along step (fun u a => transition b u a = false) s acts) :
    ∃ r', rowOf b s'.rows = some r' ∧ r'.generation = r.generation := by
  refine run_inv (I := fun u => ∃ r', rowOf b u.rows = some r' ∧ r'.generation = r.generation) ?_ ⟨r, hrow, rfl⟩ hquiet h
  rintro u a u' ⟨r', hr', hg⟩ hq hstep
  obtain ⟨r'', hr'', hg'⟩ := generation_step hr' hstep
  rw [hq] at hg'
  exact ⟨r'', hr'', by simpa [hg] using hg'⟩

theorem generation_run_moved {acts : List Act} (hrow : rowOf b s.rows = some r) (h : run step s acts = some s')
    (hmoved : ¬ Along step (fun u a => transition b u a = false) s acts) :
    ∃ r', rowOf b s'.rows = some r' ∧ r.generation < r'.generation := by
  rw [along_iff_forall] at hmoved
  push Not at hmoved
  obtain ⟨pre, a, u, ⟨post, hacts⟩, hpre, ha⟩ := hmoved
  rw [← hacts, List.append_assoc] at h
  obtain ⟨u₁, hu₁, h⟩ := run_append.mp h
  rw [hpre] at hu₁
  cases hu₁
  obtain ⟨v, hv, h⟩ := run_cons.mp h
  obtain ⟨r₁, hr₁, hle⟩ := generation_run hrow hpre
  obtain ⟨r₂, hr₂, hg⟩ := generation_step hr₁ hv
  rw [if_pos (by simpa using ha)] at hg
  obtain ⟨r₃, hr₃, hle'⟩ := generation_run hr₂ h
  exact ⟨r₃, hr₃, by omega⟩

/-! ## The writes of a delivery -/

/-- The end-of-run write of delivery `d` for the row of a block, from the row it has read. -/
def written (d b : Nat) (snap : EnrichStateRow) : Act → Option EnrichStateRow
  | .settle d' b' now => if d' = d ∧ b' = b then some (settled snap now) else none
  | .flip d' b' o => if d' = d ∧ b' = b then some (flipped snap o) else none
  | _ => none

theorem snapshot_step {x : Delivery} (hx : s.deliveries[d]? = some x) (h : step s a = some s') :
    ∃ x', s'.deliveries[d]? = some x' ∧ x'.snapshot = x.snapshot := by
  have hphase : ∀ (u : State) d' phase, u.deliveries = s.deliveries →
      ∃ x', (u.setPhase d' phase).deliveries[d]? = some x' ∧ x'.snapshot = x.snapshot := by
    intro u d' phase hu
    show ∃ x', (u.deliveries.modify d' _)[d]? = some x' ∧ _
    rw [List.getElem?_modify, hu, hx]
    split
    · exact ⟨_, rfl, rfl⟩
    · exact ⟨_, rfl, rfl⟩
  cases a with
  | read docId =>
    cases h
    refine ⟨x, ?_, rfl⟩
    show (s.deliveries ++ _)[d]? = _
    rw [List.getElem?_append_left (List.getElem?_eq_some_iff.mp hx).1, hx]
  | settle d' b' now =>
    simp only [step, Option.bind_eq_bind, Option.bind_eq_some_iff] at h
    obtain ⟨y, -, snap, -, h⟩ := h
    split at h
    · cases h
      exact ⟨x, hx, rfl⟩
    · cases h
  | charge d' ids now terminalAt chunks =>
    simp only [step, Option.bind_eq_bind, Option.bind_eq_some_iff] at h
    obtain ⟨y, -, h⟩ := h
    split at h
    · cases h
      exact hphase _ _ _ rfl
    · cases h
  | flip d' b' o =>
    simp only [step, Option.bind_eq_bind, Option.bind_eq_some_iff] at h
    obtain ⟨y, -, snap, -, h⟩ := h
    split at h
    · cases h
      exact hphase _ _ _ rfl
    · cases h
  | reset now | settleTerminal b' now | reowe w terminalAt | lease docId leaseUntil now | makeAllPendingDueNow now =>
    cases h; exact ⟨x, hx, rfl⟩

theorem snapshot_run {x : Delivery} {acts : List Act} (hx : s.deliveries[d]? = some x)
    (h : run step s acts = some s') : ∃ x', s'.deliveries[d]? = some x' ∧ x'.snapshot = x.snapshot := by
  refine run_inv (I := fun u => ∃ x', u.deliveries[d]? = some x' ∧ x'.snapshot = x.snapshot) ?_ ⟨x, hx, rfl⟩
    (along_true s acts) h
  rintro u a u' ⟨x', hx', hs⟩ - hstep
  obtain ⟨x'', hx'', hs'⟩ := snapshot_step hx' hstep
  exact ⟨x'', hx'', hs'.trans hs⟩

theorem write_of_step {x : Delivery} {snap w : EnrichStateRow} (hx : s.deliveries[d]? = some x)
    (hsnap : rowOf b x.snapshot = some snap) (hw : written d b snap a = some w) (h : step s a = some s') :
    s'.rows = flipEnrichStateIfGeneration w snap.generation s.rows := by
  cases a with
  | settle d' b' o | flip d' b' o =>
    simp only [written] at hw
    split at hw
    · rename_i heq
      obtain ⟨rfl, rfl⟩ := heq
      cases hw
      simp only [step, hx, hsnap, Option.bind_eq_bind, Option.bind_some] at h
      split at h
      · cases h
        rfl
      · cases h
    · cases hw
  | _ => cases hw

theorem written_blockId {snap w : EnrichStateRow} (hw : written d b snap a = some w) : w.blockId = snap.blockId := by
  unfold written at hw
  split at hw
  · split at hw <;> cases hw
    rfl
  · split at hw <;> cases hw
    rfl
  · cases hw

theorem rowOf_listEnrichStateForDoc {rows : List EnrichStateRow} (hkey : Keyed EnrichStateRow.blockId rows) (hr : r ∈ rows)
    (hpend : r.isPending = true) : rowOf r.blockId (listEnrichStateForDoc r.docId rows) = some (rowFromStmt r) :=
  Keyed.lookup_of_mem (listEnrichStateForDoc_nodup hkey r.docId)
    (mem_listEnrichStateForDoc.mpr ⟨r, hr, ⟨rfl, hpend⟩, rfl⟩)

/-! ## Stale writes -/

/-- A delivery reads its rows, that of block `b` as `snap`; then any steps, of it, of other deliveries and of the other
writers; then it writes the row. If the row was reset, settled or re-owed since the read, the write leaves it as it is; if
not, the row ends with exactly the columns written. -/
def StaleDropped (s₀ : State) (docId : String) (b : Nat) (snap : EnrichStateRow) : Prop :=
  ∀ s₁ mid s a w s', step s₀ (.read docId) = some s₁ → run step s₁ mid = some s →
    written s₀.deliveries.length b snap a = some w → step s a = some s' →
    (¬ Along step (fun u c => transition b u c = false) s₁ mid → rowOf b s'.rows = rowOf b s.rows) ∧
    (Along step (fun u c => transition b u c = false) s₁ mid →
      ∃ r, rowOf b s.rows = some r ∧ rowOf b s'.rows = some (w.flip r))

theorem staleDropped_of_fits {s₀ : State} (hkey : Keyed EnrichStateRow.blockId s₀.rows) (hr : r ∈ s₀.rows)
    (hpend : r.isPending = true) (hfits : toInt r.generation = r.generation) :
    StaleDropped s₀ r.docId r.blockId (rowFromStmt r) := by
  intro s₁ mid s a w s' hread hmid hw hstep
  have hs₁ := (Option.some.inj hread).symm
  have hsnap := rowOf_listEnrichStateForDoc hkey hr hpend
  have hrow₁ : rowOf r.blockId s₁.rows = some r := by
    rw [hs₁]
    exact hkey.lookup_of_mem hr
  have hx₁ : s₁.deliveries[s₀.deliveries.length]? = some ⟨listEnrichStateForDoc r.docId s₀.rows, .settling⟩ := by
    rw [hs₁]
    simp
  obtain ⟨x, hx, hxs⟩ := snapshot_run hx₁ hmid
  have hrows := write_of_step hx (by rw [hxs]; exact hsnap) hw hstep
  have hflip := rowOf_flip (b := r.blockId) w (rowFromStmt r).generation s.rows
  have hgen : (rowFromStmt r).generation = r.generation := hfits
  rw [hgen] at hflip hrows
  constructor
  · intro hmoved
    obtain ⟨r', hr', hlt⟩ := generation_run_moved hrow₁ hmid hmoved
    have hne : r'.generation ≠ r.generation := by omega
    rw [hrows, hflip, hr']
    simp [hne]
  · intro hquiet
    obtain ⟨r', hr', hg⟩ := generation_run_quiet hrow₁ hmid hquiet
    refine ⟨r', hr', ?_⟩
    have hid : w.blockId = (rowFromStmt r).blockId := written_blockId hw
    change w.blockId = r.blockId at hid
    rw [hrows, hflip, hr']
    simp [hg, rowOf_blockId hr', hid]

/-- A generation that does not fit is read as another number, so that no write finds the row: already a settle right after
the read is lost. -/
theorem fits_of_staleDropped {s₀ : State} (hkey : Keyed EnrichStateRow.blockId s₀.rows) (hr : r ∈ s₀.rows)
    (hpend : r.isPending = true) (h : StaleDropped s₀ r.docId r.blockId (rowFromStmt r)) :
    toInt r.generation = r.generation := by
  by_contra hwide
  have hsnap := rowOf_listEnrichStateForDoc hkey hr hpend
  have hrow : rowOf r.blockId s₀.rows = some r := hkey.lookup_of_mem hr
  have hsettle : step { s₀ with deliveries := s₀.deliveries ++ [⟨listEnrichStateForDoc r.docId s₀.rows, .settling⟩] }
      (.settle s₀.deliveries.length r.blockId (r.updatedAt + 1)) = some (write
        { s₀ with deliveries := s₀.deliveries ++ [⟨listEnrichStateForDoc r.docId s₀.rows, .settling⟩] } (rowFromStmt r)
        (settled (rowFromStmt r) (r.updatedAt + 1))) := by
    simp [step, hsnap]
  have hwritten : written s₀.deliveries.length r.blockId (rowFromStmt r)
      (.settle s₀.deliveries.length r.blockId (r.updatedAt + 1)) = some (settled (rowFromStmt r) (r.updatedAt + 1)) := by
    simp [written]
  obtain ⟨r', hr', hlost⟩ := (h _ [] _ _ _ _ rfl rfl hwritten hsettle).2 trivial
  cases hrow.symm.trans hr'
  have hkept : rowOf r.blockId (flipEnrichStateIfGeneration (settled (rowFromStmt r) (r.updatedAt + 1))
      (toInt r.generation) s₀.rows) = some r := by
    rw [rowOf_flip_stale fun r' hr' _ => ?_, hrow]
    cases hrow.symm.trans hr'
    exact Ne.symm hwide
  have htime := congrArg (Option.map EnrichStateRow.updatedAt) (hkept.symm.trans hlost)
  have hsame : r.updatedAt = r.updatedAt + 1 := Option.some.inj htime
  omega

/-- The write of a delivery is dropped after a transition and is what the row ends with otherwise, exactly if the
generation of the row fits the `int` it is read into. -/
theorem stale_write_dropped_iff (s₀ : State) (r : EnrichStateRow) (hkey : Keyed EnrichStateRow.blockId s₀.rows)
    (hr : r ∈ s₀.rows) (hpend : r.isPending = true) :
    StaleDropped s₀ r.docId r.blockId (rowFromStmt r) ↔ -2 ^ 31 ≤ r.generation ∧ r.generation < 2 ^ 31 := by
  rw [← toInt_eq_iff]
  exact ⟨fits_of_staleDropped hkey hr hpend, staleDropped_of_fits hkey hr hpend⟩

/-! ## A reset during a delivery, and a generation that is too large -/

def lastTry (generation : Int) : EnrichStateRow :=
  ⟨7, "doc", "c7", .pendingRetry, "f03", 9, utf8 "timeout".toList, some 100, 90, generation⟩

def beforeDelivery (generation : Int) : State := ⟨[lastTry generation], [7], []⟩

/-- The delivery charges the row and so gives it up, the operator resets it, and a lease moves its due time. -/
def resetInFlight : List Act :=
  [.charge 0 [7] 101 (kEnrichMaxAttempts + 1) 1, .reset 102, .lease "doc" 702 102]

def gaveUp : Outcome := ⟨.failedPermanent, "f03", utf8 "timeout".toList, 0, 103⟩

theorem stale_write_dropped_iff_reset : ∃ s s',
    run step (beforeDelivery 0) (.read "doc" :: resetInFlight ++ [.flip 0 7 gaveUp]) = some s' ∧
    run step (beforeDelivery 0) (.read "doc" :: resetInFlight) = some s ∧
    rowOf 7 s'.rows = rowOf 7 s.rows ∧
    rowOf 7 s.rows =
      some ⟨7, "doc", "c7", .pendingRetry, "f03", 0, utf8 "reset by operator".toList, some 702, 102, 1⟩ := by
  refine ⟨_, _, rfl, rfl, ?_, by decide⟩
  have hdropped := (stale_write_dropped_iff (beforeDelivery 0) (lastTry 0) (by decide) (by decide) rfl).mpr (by decide)
  exact (hdropped _ resetInFlight _ (.flip 0 7 gaveUp) (flipped (lastTry 0) gaveUp) _ rfl rfl (by decide) rfl).1 (by decide)

def repaired : Outcome := ⟨.ok, "", [], 0, 103⟩

/-- Nothing intervenes, and the flip of the repaired row is lost: it stays given up on. -/
theorem wide_generation_not_flipped : ∃ s,
    run step (beforeDelivery (2 ^ 31)) [.read "doc", .charge 0 [7] 101 (kEnrichMaxAttempts + 1) 1, .flip 0 7 repaired] =
      some s ∧
    rowOf 7 s.rows = some ⟨7, "doc", "c7", .failedPermanent, "f03", 10, utf8 "timeout".toList, none, 101, 2 ^ 31⟩ ∧
    ¬ StaleDropped (beforeDelivery (2 ^ 31)) "doc" 7 (rowFromStmt (lastTry (2 ^ 31))) := by
  refine ⟨_, rfl, by decide, fun h => ?_⟩
  have hfits := @fits_of_staleDropped (lastTry (2 ^ 31)) (beforeDelivery (2 ^ 31)) (by decide) (by decide) rfl h
  exact absurd hfits (by decide)

end Cortrix.Spc.StaleDelivery
