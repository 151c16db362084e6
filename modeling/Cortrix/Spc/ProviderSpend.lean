import Cortrix.Spc.DeliverySteps

/-!
# Provider spend of a chunk

However the deliveries of a document, their crashes, the audits and the sweeper interleave, the chunk of a row is passed
to the chain at most ten times, and the attempts of the row never go down, as long as no delivery writes back a count
that an `int` does not hold.

A call is counted in `spent` when the delivery charges its rows, which is when it can no longer be called off but by a
crash. The count of a pending row that still needs a provider is at most its attempts; a row past the cap is pending
again only for its index label, which needs no provider. The one call that no attempt pays for is that of a delivery whose
row a late audit has given up on between the read and the charge: the row was at the cap by then, and stays there.

Deliveries for the label alone have no cap. Their count is read, raised and written back as an `int`, and goes round.
-/

namespace Cortrix.Spc.DeliverySteps
open Lib BackfillWorker

/-- No provider is needed for the contextual member of the chunk: its vector is stored, or the chunk is gone. -/
def Spared (b : Nat) (blocks : List Block) : Prop := (storedVector b blocks).isSome ∨ blockOf b blocks = none

instance (b : Nat) (blocks : List Block) : Decidable (Spared b blocks) := inferInstanceAs (Decidable (_ ∨ _))

/-- Only the index label is owed, and it costs no call. -/
def LabelDebt (spared : Prop) (r : EnrichStateRow) : Prop := r.failedMembers = "f35" ∧ spared

/-- The calls so far are paid for, and leave room for one more. -/
def Within (q : Nat) (r : EnrichStateRow) : Prop := (q : Int) ≤ r.attempts ∧ q ≤ 9

/-- The row of block `b` after `q` calls. -/
structure RowOk (hash : String → Nat) (b : Nat) (spared : Prop) (q : Nat) (r : EnrichStateRow) : Prop where
  keyed : KeyedBy hash r.childId b
  generation : 0 ≤ r.generation
  early : r.attempts ≤ 7 → (q : Int) ≤ r.attempts
  bound : q ≤ 10
  pending : r.isPending → LabelDebt spared r ∨ Within q r

/-- The row a delivery has read and not charged yet, and the row as it is now. -/
structure Fresh (snap r : EnrichStateRow) : Prop where
  attempts : toInt r.attempts = snap.attempts
  generation : snap.generation ≤ r.generation
  same : r.generation = snap.generation → r.isPending
  capped : r.isPending ∨ 8 ≤ r.attempts

structure Charged (snap r : EnrichStateRow) : Prop where
  generation : snap.generation ≤ r.generation
  same : r.generation = snap.generation → toInt r.attempts = toInt (snap.attempts + 1)

/-- The row is there and `P` holds of it. -/
def On (row : Option EnrichStateRow) (P : EnrichStateRow → Prop) : Prop := ∃ r, row = some r ∧ P r

def Grows (row row' : Option EnrichStateRow) : Prop := ∀ r, row = some r → On row' fun r' => r.attempts ≤ r'.attempts

/-- What the steps of others do to a row: they keep its attempts, and a status they change comes with a new generation. -/
structure Outside (r r' : EnrichStateRow) : Prop where
  attempts : r'.attempts = r.attempts
  moved : r'.generation = r.generation ∧ r'.status = r.status ∨
    r.generation < r'.generation ∧ (r'.isPending ∨ 8 ≤ r'.attempts ∨ r.isPending = false)

structure WorkOk (b : Nat) (spared : Prop) (w : Work) : Prop where
  block : w.block.blockId = b
  stored : w.stored.isSome → spared

structure RepairOk (b : Nat) (row : Option EnrichStateRow) (spared : Prop) (r : Repair) : Prop where
  block : r.block.blockId = b
  columns : r.ctxColumnsPresent → spared
  sound : EnricherChain.Sound r.merged
  charged : On row (Charged r.row)

/-- What a delivery holds of the row of block `b`, after `n` calls. -/
def PhaseOk (hash : String → Nat) (b : Nat) (row : Option EnrichStateRow) (n : Nat) (spared : Prop) : Phase → Prop
  | .listed snapshot => (snapshot.map EnrichStateRow.blockId).Nodup ∧
      ∀ snap ∈ snapshot, snap.blockId = b →
        KeyedBy hash snap.childId b ∧ (LabelDebt spared snap ∨ On row (Within n)) ∧ On row (Fresh snap)
  | .classified cs => PairsOk cs ∧
      ∀ w ∈ works cs, w.row.blockId = b →
        WorkOk b spared w ∧ (w.isProvider → On row (Within n)) ∧
          On row fun r => toInt r.attempts = w.row.attempts ∧ (w.isSettled = false → Fresh w.row r)
  | .charged cs => PairsOk cs ∧
      ∀ w ∈ works cs, w.row.blockId = b →
        WorkOk b spared w ∧ On row fun r => (w.isProvider → Charged w.row r) ∧ (w.isLabelOnly → Fresh w.row r)
  | .calling todo labelOnly repairs =>
      (∀ w ∈ labelOnly, w.stored.isSome) ∧
      (∀ w ∈ todo.flatMap Bucket.all ++ labelOnly, w.row.blockId = b → WorkOk b spared w ∧ On row (Charged w.row)) ∧
        ∀ r ∈ repairs, r.row.blockId = b → RepairOk b row spared r
  | .persisting todo done => ∀ r ∈ todo ++ done, r.row.blockId = b → RepairOk b row spared r
  | .flipping todo => ∀ r ∈ todo, r.row.blockId = b → RepairOk b row spared r

/-- The row, as the delivery has read it, that a step writes back. -/
def writtenBack (s : State) : Act → Option EnrichStateRow
  | .settle w _ => some w.row
  | .flip _ true => s.delivery.bind fun d =>
    match d.phase with
    | .flipping (r :: _) => some r.row
    | _ => none
  | _ => none

/-- If the write back of `snap` finds the row of block `b`, it finds a count that an `int` holds. -/
def WrittenFits (b : Nat) (s : State) (snap : EnrichStateRow) : Prop :=
  snap.blockId = b → ∀ r ∈ rowOf b s.rows, r.generation = snap.generation → r.attempts < 2 ^ 31

instance (b : Nat) (s : State) (snap : EnrichStateRow) : Decidable (WrittenFits b s snap) :=
  inferInstanceAs (Decidable (_ → ∀ r ∈ rowOf b s.rows, _))

def AttemptsFit (b : Nat) (s : State) (a : Act) : Prop := ∀ snap ∈ writtenBack s a, WrittenFits b s snap

instance (b : Nat) (s : State) (a : Act) : Decidable (AttemptsFit b s a) :=
  inferInstanceAs (Decidable (∀ snap ∈ writtenBack s a, _))

/-- A re-owe that an audit is about to write. -/
structure ReoweOk (hash : String → Nat) (b : Nat) (spared : Prop) (w : EnrichStateRow) (terminalAt : Int) : Prop where
  keyed : KeyedBy hash w.childId b
  pending : w.isPending
  attempts : w.attempts = 0
  bound : 8 ≤ terminalAt
  exempt : terminalAt ≠ kEnrichMaxAttempts → LabelDebt spared w

structure Inv (hash : String → Nat) (b : Nat) (s : State) : Prop where
  unique : Keyed EnrichStateRow.blockId s.rows
  blocks : BlocksKeyed hash s.store.blocks
  absent : rowOf b s.rows = none → s.spent b = 0
  row : ∀ r, rowOf b s.rows = some r → RowOk hash b (Spared b s.store.blocks) (s.spent b) r
  phase : ∀ d, s.delivery = some d →
    PhaseOk hash b (rowOf b s.rows) (s.called.count b) (Spared b s.store.blocks) d.phase
  audits : ∀ a ∈ s.audits, ∀ w t, a.write = some (.reowe w t) → w.blockId = b →
    ReoweOk hash b (Spared b s.store.blocks) w t

/-! ## Rows -/

section Rows

variable {hash : String → Nat} {b q q' n : Nat} {spared spared' : Prop} {r r' snap w : EnrichStateRow}
  {row row' : Option EnrichStateRow} {P Q : EnrichStateRow → Prop}

theorem On.mono (h : On row P) (hPQ : ∀ r, row = some r → P r → On row' Q) : On row' Q := by
  obtain ⟨r, hr, hp⟩ := h
  exact hPQ r hr hp

theorem On.imp (h : On row P) (hPQ : ∀ r, P r → Q r) : On row Q := by
  obtain ⟨r, hr, hp⟩ := h
  exact ⟨r, hr, hPQ r hp⟩

theorem On.get (h : On row P) (hr : row = some r) : P r := by
  obtain ⟨r', hr', hp⟩ := h
  cases hr.symm.trans hr'
  exact hp

theorem Grows.refl (row : Option EnrichStateRow) : Grows row row := fun r hr => ⟨r, hr, le_refl _⟩

theorem Grows.trans {row'' : Option EnrichStateRow} (h : Grows row row') (h' : Grows row' row'') : Grows row row'' := by
  intro r hr
  obtain ⟨r', hr', hle⟩ := h r hr
  exact (h' r' hr').imp fun _ hle' => le_trans hle hle'

theorem RowOk.mono (h : RowOk hash b spared q r) (hq : q' ≤ q) (hs : spared → spared') : RowOk hash b spared' q' r where
  keyed := h.keyed
  generation := h.generation
  early := fun ha => by
    have := h.early ha
    omega
  bound := le_trans hq h.bound
  pending := fun hp => by
    rcases h.pending hp with ⟨hm, hsp⟩ | ⟨hle, h9⟩
    · exact .inl ⟨hm, hs hsp⟩
    · exact .inr ⟨by omega, by omega⟩

theorem RowOk.keep (h : RowOk hash b spared q r) (hchild : r'.childId = r.childId) (hatt : r'.attempts = r.attempts)
    (hgen : r.generation ≤ r'.generation) (hpend : r'.isPending → r.isPending ∧ r'.failedMembers = r.failedMembers) :
    RowOk hash b spared q r' where
  keyed := by
    rw [hchild]
    exact h.keyed
  generation := le_trans h.generation hgen
  early := by
    rw [hatt]
    exact h.early
  bound := h.bound
  pending := fun hp => by
    obtain ⟨hold, hm⟩ := hpend hp
    unfold LabelDebt Within
    rw [hm, hatt]
    exact h.pending hold

theorem RowOk.toInt_attempts (h : RowOk hash b spared q r) (hfits : r.attempts < 2 ^ 31) :
    toInt r.attempts = r.attempts := by
  have hnonneg : 0 ≤ r.attempts := by
    by_cases h7 : r.attempts ≤ 7
    · exact le_trans (Int.natCast_nonneg q) (h.early h7)
    · omega
  exact toInt_of_fits (by omega) hfits

theorem charge_isPending {terminalAt now : Int} (h : (r.charge terminalAt now).isPending = true) :
    r.isPending = true ∧ r.attempts + 1 ≤ terminalAt := by
  simp only [EnrichStateRow.isPending, EnrichStateRow.charge] at h ⊢
  split at h
  · exact absurd h (by decide)
  · exact ⟨h, by omega⟩

theorem RowOk.charge (h : RowOk hash b spared q r) (terminalAt now : Int) :
    RowOk hash b spared q (r.charge terminalAt now) where
  keyed := h.keyed
  generation := h.generation
  early := fun ha => by
    have ha' : r.attempts + 1 ≤ 7 := ha
    have := h.early (by omega)
    show (q : Int) ≤ r.attempts + 1
    omega
  bound := h.bound
  pending := fun hp => by
    rcases h.pending (charge_isPending hp).1 with hl | ⟨hle, h9⟩
    · exact .inl hl
    · refine .inr ⟨?_, h9⟩
      show (q : Int) ≤ r.attempts + 1
      omega

theorem RowOk.charge_call (h : RowOk hash b spared q r) (hw : Within q r) (now : Int) :
    RowOk hash b spared (q + 1) (r.charge (kMaxAttempts + 1) now) where
  keyed := h.keyed
  generation := h.generation
  early := fun _ => by
    show ((q + 1 : Nat) : Int) ≤ r.attempts + 1
    have := hw.1
    omega
  bound := by
    have := hw.2
    omega
  pending := fun hp => by
    have hle := (charge_isPending hp).2
    have hmax : kMaxAttempts + 1 = 9 := rfl
    refine .inr ⟨?_, ?_⟩
    · show ((q + 1 : Nat) : Int) ≤ r.attempts + 1
      have := hw.1
      omega
    · have := hw.1
      omega

theorem RowOk.late_call (h : RowOk hash b spared q r) (hq : q ≤ 9) (hpend : r.isPending = false) (hcap : 8 ≤ r.attempts) :
    RowOk hash b spared (q + 1) r where
  keyed := h.keyed
  generation := h.generation
  early := fun ha => by omega
  bound := by omega
  pending := fun hp => absurd hp (by simp [hpend])

theorem reowe_isPending {terminalAt : Int} (h : (w.reowe terminalAt r).isPending = true) : r.attempts < terminalAt := by
  simp only [EnrichStateRow.isPending, EnrichStateRow.reowe] at h
  split at h
  · exact absurd h (by decide)
  · omega

theorem RowOk.reowe {terminalAt : Int} (h : RowOk hash b spared q r) (hw : ReoweOk hash b spared w terminalAt) :
    RowOk hash b spared q (w.reowe terminalAt r) where
  keyed := hw.keyed
  generation := by
    show 0 ≤ r.generation + 1
    have := h.generation
    omega
  early := h.early
  bound := h.bound
  pending := fun hp => by
    have hlt := reowe_isPending hp
    by_cases ht : terminalAt = kEnrichMaxAttempts
    · have h7 : r.attempts ≤ 7 := by
        have hmax : kEnrichMaxAttempts = 8 := rfl
        omega
      have hle := h.early h7
      refine .inr ⟨hle, ?_⟩
      omega
    · exact .inl (hw.exempt ht)

/-! ### Steps of others -/

theorem Outside.refl (r : EnrichStateRow) : Outside r r := ⟨rfl, .inl ⟨rfl, rfl⟩⟩

theorem Outside.reowe {terminalAt : Int} (hw : ReoweOk hash b spared w terminalAt) : Outside r (w.reowe terminalAt r) where
  attempts := rfl
  moved := by
    refine .inr ⟨?_, ?_⟩
    · show r.generation < r.generation + 1
      omega
    · by_cases ht : terminalAt ≤ r.attempts
      · exact .inr (.inl (le_trans hw.bound ht))
      · refine .inl ?_
        have hp := hw.pending
        simp only [EnrichStateRow.isPending, EnrichStateRow.reowe, if_neg ht] at hp ⊢
        exact hp

theorem Outside.settle {now : Int} (h : r.isGivenUp = true) : Outside r (r.settle now) where
  attempts := rfl
  moved := by
    refine .inr ⟨?_, .inr (.inr ?_)⟩
    · show r.generation < r.generation + 1
      omega
    · simp only [EnrichStateRow.isGivenUp, EnrichStateRow.isPending, beq_iff_eq] at h ⊢
      rw [h]
      decide

theorem Outside.isPending (h : Outside r r') (hp : r.isPending = true ∨ 8 ≤ r.attempts) :
    r'.isPending = true ∨ 8 ≤ r'.attempts := by
  have hatt := h.attempts
  rcases h.moved with ⟨-, hst⟩ | ⟨-, hnew⟩
  · rcases hp with hp | hp
    · refine .inl ?_
      unfold EnrichStateRow.isPending at hp ⊢
      rw [hst]
      exact hp
    · exact .inr (by omega)
  · rcases hnew with hnew | hnew | hnot
    · exact .inl hnew
    · exact .inr hnew
    · rcases hp with hp | hp
      · exact absurd hp (by simp [hnot])
      · exact .inr (by omega)

theorem Fresh.outside (h : Fresh snap r) (ho : Outside r r') : Fresh snap r' := by
  have hgen := h.generation
  refine ⟨by rw [ho.attempts, h.attempts], ?_, fun heq => ?_, ho.isPending h.capped⟩
  · rcases ho.moved with ⟨hg, -⟩ | ⟨hlt, -⟩ <;> omega
  · rcases ho.moved with ⟨hg, hst⟩ | ⟨hlt, -⟩
    · have hp := h.same (by omega)
      unfold EnrichStateRow.isPending at hp ⊢
      rw [hst]
      exact hp
    · omega

theorem Charged.outside (h : Charged snap r) (ho : Outside r r') : Charged snap r' := by
  have hgen := h.generation
  have hatt := ho.attempts
  refine ⟨?_, fun heq => ?_⟩
  · rcases ho.moved with ⟨hg, -⟩ | ⟨hlt, -⟩ <;> omega
  · rcases ho.moved with ⟨hg, -⟩ | ⟨hlt, -⟩
    · rw [hatt]
      exact h.same (by omega)
    · omega

theorem Within.outside (h : Within n r) (ho : Outside r r') : Within n r' := by
  unfold Within at h ⊢
  rw [ho.attempts]
  exact h

theorem RepairOk.outside {x : Repair} (h : RepairOk b row spared x)
    (hrow : ∀ r, row = some r → On row' (Outside r)) (hs : spared → spared') : RepairOk b row' spared' x where
  block := h.block
  columns := fun hc => hs (h.columns hc)
  sound := h.sound
  charged := h.charged.mono fun r hr hc => (hrow r hr).imp fun _ ho => hc.outside ho

theorem WorkOk.mono {x : Work} (h : WorkOk b spared x) (hs : spared → spared') : WorkOk b spared' x :=
  ⟨h.block, fun hst => hs (h.stored hst)⟩

theorem PhaseOk.outside {p : Phase} (h : PhaseOk hash b row n spared p)
    (hrow : ∀ r, row = some r → On row' (Outside r)) (hs : spared → spared') : PhaseOk hash b row' n spared' p := by
  have hon : ∀ {P Q : EnrichStateRow → Prop}, On row P → (∀ r r', P r → Outside r r' → Q r') → On row' Q :=
    fun hp hPQ => hp.mono fun r hr hpr => (hrow r hr).imp fun r' ho => hPQ r r' hpr ho
  rcases p with snapshot | cs | cs | ⟨todo, labelOnly, repairs⟩ | ⟨todo, done⟩ | todo
  · refine ⟨h.1, fun snap hmem hb => ?_⟩
    obtain ⟨hk, hdebt, hfresh⟩ := h.2 snap hmem hb
    refine ⟨hk, ?_, hon hfresh fun _ _ hf ho => hf.outside ho⟩
    rcases hdebt with ⟨hm, hsp⟩ | hw
    · exact .inl ⟨hm, hs hsp⟩
    · exact .inr (hon hw fun _ _ hwithin ho => hwithin.outside ho)
  · refine ⟨h.1, fun w hmem hb => ?_⟩
    obtain ⟨hwork, hwithin, hfresh⟩ := h.2 w hmem hb
    exact ⟨hwork.mono hs, fun hp => hon (hwithin hp) fun _ _ hwithin ho => hwithin.outside ho,
      hon hfresh fun _ _ hf ho => ⟨by rw [ho.attempts, hf.1], fun hns => (hf.2 hns).outside ho⟩⟩
  · refine ⟨h.1, fun w hmem hb => ?_⟩
    obtain ⟨hwork, hrows⟩ := h.2 w hmem hb
    exact ⟨hwork.mono hs, hon hrows fun _ _ hf ho =>
      ⟨fun hp => (hf.1 hp).outside ho, fun hl => (hf.2 hl).outside ho⟩⟩
  · refine ⟨h.1, fun w hmem hb => ?_, fun x hmem hb => (h.2.2 x hmem hb).outside hrow hs⟩
    obtain ⟨hwork, hcharged⟩ := h.2.1 w hmem hb
    exact ⟨hwork.mono hs, hon hcharged fun _ _ hc ho => hc.outside ho⟩
  · exact fun x hmem hb => (h x hmem hb).outside hrow hs
  · exact fun x hmem hb => (h x hmem hb).outside hrow hs

end Rows

/-! ## Audits, leases and other writers -/

section Others

variable {hash : String → Nat} {docId : String} {b : Nat} {s s' : State} {r : EnrichStateRow}

/-- A step of others: the delivery and the calls stay, and the row moves as `Outside` says. -/
theorem Inv.outside (h : Inv hash b s) (hcalled : s'.called = s.called) (hdelivery : s'.delivery = s.delivery)
    (hunique : Keyed EnrichStateRow.blockId s'.rows) (hblocks : BlocksKeyed hash s'.store.blocks)
    (hs : Spared b s.store.blocks → Spared b s'.store.blocks)
    (hrow : ∀ r, rowOf b s.rows = some r → RowOk hash b (Spared b s.store.blocks) (s.spent b) r →
      On (rowOf b s'.rows) fun r' => Outside r r' ∧ RowOk hash b (Spared b s.store.blocks) (s.spent b) r')
    (hnew : rowOf b s.rows = none → ∀ r', rowOf b s'.rows = some r' → RowOk hash b (Spared b s.store.blocks) 0 r')
    (haudits : ∀ a ∈ s'.audits, ∀ w t, a.write = some (.reowe w t) → w.blockId = b →
      ReoweOk hash b (Spared b s'.store.blocks) w t) :
    Inv hash b s' ∧ Grows (rowOf b s.rows) (rowOf b s'.rows) := by
  have hspent : s'.spent b = s.spent b := by
    unfold State.spent
    rw [hcalled, hdelivery]
  have hstep : ∀ r, rowOf b s.rows = some r → On (rowOf b s'.rows) fun r' =>
      Outside r r' ∧ RowOk hash b (Spared b s.store.blocks) (s.spent b) r' := fun r hr => hrow r hr (h.row r hr)
  refine ⟨⟨hunique, hblocks, ?_, ?_, ?_, haudits⟩, ?_⟩
  · intro hnone
    rw [hspent]
    apply h.absent
    by_contra hsome
    obtain ⟨r, hr⟩ := Option.ne_none_iff_exists'.mp hsome
    obtain ⟨r', hr', -⟩ := hstep r hr
    rw [hnone] at hr'
    cases hr'
  · intro r' hr'
    rw [hspent]
    rcases hold : rowOf b s.rows with - | r
    · rw [h.absent hold]
      exact (hnew hold r' hr').mono (le_refl _) hs
    · exact ((hstep r hold).get hr').2.mono (le_refl _) hs
  · intro d hd
    rw [hdelivery] at hd
    rw [hcalled]
    exact (h.phase d hd).outside (fun r hr => (hstep r hr).imp fun _ ho => ho.1) hs
  · intro r hr
    exact (hstep r hr).imp fun r' ho => le_of_eq ho.1.attempts.symm

theorem Inv.reaudit (h : Inv hash b s) {audits : List Audit}
    (haudits : ∀ a ∈ audits, ∀ w t, a.write = some (.reowe w t) → w.blockId = b →
      ReoweOk hash b (Spared b s.store.blocks) w t) :
    Inv hash b { s with audits } ∧ Grows (rowOf b s.rows) (rowOf b s.rows) :=
  h.outside rfl rfl h.unique h.blocks id (fun r hr hok => ⟨r, hr, Outside.refl r, hok⟩)
    (fun hnone r' hr' => absurd (hnone.symm.trans hr') (by simp)) haudits

theorem Inv.retime (h : Inv hash b s) {p : EnrichStateRow → Bool} {at_ now : Int} :
    Inv hash b { s with rows := updateWhere p (fun r => { r with nextRetryAt := some at_, updatedAt := now }) s.rows } ∧
      Grows (rowOf b s.rows)
        (rowOf b (updateWhere p (fun r => { r with nextRetryAt := some at_, updatedAt := now }) s.rows)) := by
  have heff := rowOf_updateWhere (p := p) (f := fun r => { r with nextRetryAt := some at_, updatedAt := now })
    (by intro _; rfl) b s.rows
  refine h.outside rfl rfl (h.unique.updateWhere fun _ _ => rfl) h.blocks id ?_ ?_ h.audits
  · intro r hr hok
    refine ⟨_, heff.trans (by rw [hr]; rfl), ?_⟩
    dsimp only
    split
    · exact ⟨⟨rfl, .inl ⟨rfl, rfl⟩⟩, hok.keep rfl rfl (le_refl _) fun hp => ⟨hp, rfl⟩⟩
    · exact ⟨Outside.refl r, hok⟩
  · intro hr r' hr'
    rw [heff, hr] at hr'
    cases hr'

theorem auditBlock_reowe {v : AuditView} {now t : Int} {x : Block} {w : EnrichStateRow} {blocks : List Block}
    (h : auditBlock v now x = some (.reowe w t)) (hx : blockOf b blocks = some x) (hkey : KeyedBy hash x.childId x.blockId) :
    w.blockId = b ∧ ReoweOk hash b (Spared b blocks) w t := by
  obtain ⟨-, hb⟩ := lookup_eq_some hx
  obtain ⟨rfl, -, ht⟩ := auditBlock_eq_reowe h
  refine ⟨hb, ⟨hb ▸ hkey, rfl, rfl, ?_, ?_⟩⟩
  · rcases ht with rfl | ⟨rfl, -⟩ <;> decide
  · intro hne
    rcases ht with rfl | ⟨-, hmiss⟩
    · exact absurd rfl hne
    · simp only [AuditView.labelOnlyMiss, Bool.and_eq_true, beq_iff_eq] at hmiss
      obtain ⟨⟨-, hvec⟩, howed⟩ := hmiss
      refine ⟨?_, .inl ?_⟩
      · show joinCsv (v.owedMembers x) = "f35"
        rw [howed]
        decide
      · unfold storedVector
        rw [hx]
        exact hvec

theorem Inv.auditWrite (h : Inv hash b s) {a : Audit} {w : AuditWrite} {k : Nat} (ha : a ∈ s.audits)
    (hw : a.write = some w) :
    Inv hash b { s with rows := w.apply a.now s.rows, audits := s.audits.set k { a with write := none } } ∧
      Grows (rowOf b s.rows) (rowOf b (w.apply a.now s.rows)) := by
  have haudits : ∀ a' ∈ s.audits.set k { a with write := none }, ∀ w t, a'.write = some (.reowe w t) → w.blockId = b →
      ReoweOk hash b (Spared b s.store.blocks) w t := by
    intro a' ha' w t hw'
    rcases List.mem_or_eq_of_mem_set ha' with hold | rfl
    · exact h.audits a' hold w t hw'
    · cases hw'
  rcases w with blk | ⟨w, t⟩
  · have heff := rowOf_updateWhere (p := fun r => r.blockId == blk && r.isGivenUp) (f := EnrichStateRow.settle a.now)
      (by intro _; rfl) b s.rows
    refine h.outside rfl rfl (h.unique.updateWhere fun _ _ => rfl) h.blocks id ?_ ?_ haudits
    · intro r hr hok
      refine ⟨_, heff.trans (by rw [hr]; rfl), ?_⟩
      dsimp only
      split
      · rename_i hp
        rw [Bool.and_eq_true] at hp
        refine ⟨Outside.settle hp.2, hok.keep rfl rfl ?_ fun hp' => ?_⟩
        · show r.generation ≤ r.generation + 1
          omega
        exact absurd hp' (by simp [EnrichStateRow.isPending, EnrichStateRow.settle])
      · exact ⟨Outside.refl r, hok⟩
    · intro hr r' hr'
      change rowOf b (updateWhere _ _ s.rows) = some r' at hr'
      rw [heff, hr] at hr'
      cases hr'
  · refine h.outside rfl rfl (keyed_reoweEnrichState h.unique w t) h.blocks id ?_ ?_ haudits
    · intro r hr hok
      refine ⟨_, rowOf_reoweEnrichState w t hr, ?_⟩
      split
      · rename_i hb
        have hwb : w.blockId = b := by
          rw [← (lookup_eq_some hr).2]
          exact (beq_iff_eq.mp hb).symm
        have hre := h.audits a ha w t hw hwb
        exact ⟨Outside.reowe hre, hok.reowe hre⟩
      · exact ⟨Outside.refl r, hok⟩
    · intro hr r' hr'
      obtain ⟨hwb, rfl⟩ := rowOf_reoweEnrichState_new hr hr'
      have hre := h.audits a ha w t hw hwb
      refine ⟨hre.keyed, le_refl _, fun _ => ?_, by decide, fun _ => .inr ⟨?_, by decide⟩⟩
      · show ((0 : Nat) : Int) ≤ w.attempts
        rw [hre.attempts]
        exact le_refl _
      · show ((0 : Nat) : Int) ≤ w.attempts
        rw [hre.attempts]
        exact le_refl _

end Others

/-! ## Works and their rows -/

section Pairs

variable {cs : List (EnrichStateRow × Option Work)} {b : Nat} {w w' : Work}

theorem due_count (h : PairsOk cs) :
    ((Phase.charged cs).due).count b ≤ 1 ∧
      (0 < ((Phase.charged cs).due).count b → ∃ w ∈ works cs, w.isProvider = true ∧ w.row.blockId = b) := by
  have hnodup : ((Phase.charged cs).due).Nodup := h.works_nodup.sublist (List.filter_sublist.map _)
  refine ⟨List.nodup_iff_count_le_one.mp hnodup b, fun hpos => ?_⟩
  obtain ⟨w, hw, hb⟩ := List.mem_map.mp (List.count_pos_iff.mp hpos)
  rw [List.mem_filter] at hw
  exact ⟨w, hw.1, hw.2, hb⟩

end Pairs

/-! ## The steps of a delivery -/

section Delivery

variable {hash : String → Nat} {docId : String} {b : Nat} {s s' : State} {d : Delivery}

theorem ReoweOk.mono {spared spared' : Prop} {w : EnrichStateRow} {t : Int} (h : ReoweOk hash b spared w t)
    (hs : spared → spared') : ReoweOk hash b spared' w t :=
  ⟨h.keyed, h.pending, h.attempts, h.bound, fun hne => ⟨(h.exempt hne).1, hs (h.exempt hne).2⟩⟩

theorem Inv.quiet (h : Inv hash b s) (hrows : s'.rows = s.rows) (haudits : s'.audits = s.audits)
    (hblocks : BlocksKeyed hash s'.store.blocks) (hs : Spared b s.store.blocks → Spared b s'.store.blocks)
    (hspent : s'.spent b ≤ s.spent b)
    (hphase : ∀ d, s'.delivery = some d →
      PhaseOk hash b (rowOf b s.rows) (s'.called.count b) (Spared b s'.store.blocks) d.phase) :
    Inv hash b s' ∧ Grows (rowOf b s.rows) (rowOf b s'.rows) := by
  refine ⟨⟨?_, hblocks, ?_, ?_, ?_, ?_⟩, ?_⟩
  · rw [hrows]
    exact h.unique
  · rw [hrows]
    intro hnone
    have := h.absent hnone
    omega
  · rw [hrows]
    exact fun r hr => (h.row r hr).mono hspent hs
  · rw [hrows]
    exact hphase
  · rw [haudits]
    exact fun a ha w t hw hb => (h.audits a ha w t hw hb).mono hs
  · rw [hrows]
    exact Grows.refl _

theorem Inv.rewrite (h : Inv hash b s) (hstore : s'.store = s.store) (haudits : s'.audits = s.audits)
    (hunique : Keyed EnrichStateRow.blockId s'.rows)
    (hnone : rowOf b s.rows = none → rowOf b s'.rows = none ∧ s'.spent b = 0)
    (hrow : ∀ r, rowOf b s.rows = some r → On (rowOf b s'.rows) fun r' =>
      r.attempts ≤ r'.attempts ∧ RowOk hash b (Spared b s.store.blocks) (s'.spent b) r')
    (hphase : ∀ d, s'.delivery = some d →
      PhaseOk hash b (rowOf b s'.rows) (s'.called.count b) (Spared b s.store.blocks) d.phase) :
    Inv hash b s' ∧ Grows (rowOf b s.rows) (rowOf b s'.rows) := by
  refine ⟨⟨hunique, ?_, ?_, ?_, ?_, ?_⟩, fun r hr => (hrow r hr).imp fun _ ho => ho.1⟩
  · rw [hstore]
    exact h.blocks
  · intro hn
    rcases hold : rowOf b s.rows with - | r
    · exact (hnone hold).2
    · obtain ⟨r', hr', -⟩ := hrow r hold
      rw [hn] at hr'
      cases hr'
  · rw [hstore]
    intro r' hr'
    rcases hold : rowOf b s.rows with - | r
    · rw [(hnone hold).1] at hr'
      cases hr'
    · exact ((hrow r hold).get hr').2
  · rw [hstore]
    exact hphase
  · rw [haudits, hstore]
    exact h.audits

theorem Inv.list (h : Inv hash b s) (hd : s.delivery = none) :
    Inv hash b { s with delivery := some ⟨0, [], .listed (listEnrichStateForDoc docId s.rows)⟩ } ∧
      Grows (rowOf b s.rows) (rowOf b s.rows) := by
  have hspent : s.spent b = s.called.count b := by simp [State.spent, hd]
  refine h.quiet rfl rfl h.blocks id (by simp [State.spent, Phase.due]) ?_
  rintro d hd'
  cases hd'
  refine ⟨listEnrichStateForDoc_nodup h.unique docId, fun snap hsnap hb => ?_⟩
  obtain ⟨r, hin, ⟨-, hp⟩, rfl⟩ := mem_listEnrichStateForDoc.mp hsnap
  have hrow : rowOf b s.rows = some r := by
    rw [← hb]
    exact h.unique.lookup_of_mem hin
  have hok := h.row r hrow
  rw [hspent] at hok
  refine ⟨hok.keyed, ?_, r, hrow, rfl, toInt_le (by have := hok.generation; omega), fun _ => hp, .inl hp⟩
  exact (hok.pending hp).imp id fun hwithin => ⟨r, hrow, hwithin⟩

/-- A row with label debt alone is not sent to the chain. -/
theorem classify_labelDebt {blocks : List Block} {docLevel : Int} {row : EnrichStateRow} {w : Work}
    (h : classify docLevel (childrenOf docId blocks) blocks row = some w) (hblocks : BlocksKeyed hash blocks)
    (hkey : KeyedBy hash row.childId row.blockId) (hdebt : LabelDebt (Spared row.blockId blocks) row) :
    w.isProvider = false := by
  obtain ⟨hm, hspared⟩ := hdebt
  obtain ⟨hrow, hblock, hchild, hne, -, hstored, hmembers⟩ := classify_eq_some h
  have howed : owedBy docLevel row = ["f35"] := by
    have hsplit : splitCsv "f35" = ["f35"] := by decide
    have hsome : "f35".isEmpty = false := by decide
    unfold owedBy
    rw [hm, hsome, hsplit]
    dsimp only
    split
    · rfl
    · decide
  have hvec : (storedVector row.blockId blocks).isSome := by
    rcases hspared with hv | hgone
    · exact hv
    · -- the block that was found is the block of the row
      have hid : w.block.blockId = row.blockId := by
        rw [hblocks w.block hblock (by rw [hchild]; exact hne), hkey hne, hchild]
      exact absurd hid (lookup_eq_none.mp hgone w.block hblock)
  rw [howed] at hstored hmembers
  have hsome : w.stored.isSome := by
    rw [hstored, if_pos (by decide)]
    exact hvec
  rw [if_pos hsome] at hmembers
  unfold Work.isProvider
  rw [hmembers]
  decide

theorem Inv.classify (h : Inv hash b s) {snapshot : List EnrichStateRow} {d' : Delivery} (hd : s.delivery = some d)
    (hp : d.phase = .listed snapshot) :
    Inv hash b (s.setPhase d' (.classified (classifyAll docId s.store snapshot))) ∧
      Grows (rowOf b s.rows) (rowOf b s.rows) := by
  refine h.quiet rfl rfl h.blocks id (by simp [State.spent, State.setPhase, hd, hp, Phase.due]) ?_
  intro d'' hd''
  cases hd''
  have hphase := h.phase d hd
  rw [hp] at hphase
  obtain ⟨hnodup, hsnap⟩ := hphase
  refine ⟨pairsOk_classifyAll hnodup _ _, ?_⟩
  · intro w hw hb
    obtain ⟨c, hc, hcw⟩ := mem_works.mp hw
    obtain ⟨row, hrow, rfl⟩ := List.mem_map.mp hc
    obtain ⟨hwrow, hblock, hchild, hne, -, hstored, -⟩ := classify_eq_some hcw
    rw [hwrow] at hb ⊢
    obtain ⟨hkey, hdebt, hfresh⟩ := hsnap row hrow hb
    refine ⟨⟨?_, ?_⟩, ?_, hfresh.imp fun r hf => ⟨hf.attempts, fun _ => hf⟩⟩
    · rw [h.blocks w.block hblock (by rw [hchild]; exact hne), hchild, ← hkey hne]
    · intro hsome
      refine .inl ?_
      rw [hstored] at hsome
      split at hsome
      · rw [← hb]
        exact hsome
      · exact absurd hsome (by simp)
    · intro hprov
      rcases hdebt with hdebt | hwithin
      · rw [← hb] at hdebt hkey
        exact absurd hprov (by simp [classify_labelDebt hcw h.blocks hkey hdebt])
      · exact hwithin

theorem Inv.settle (h : Inv hash b s) {cs : List (EnrichStateRow × Option Work)} {w : Work} {now : Int}
    (hd : s.delivery = some d) (hp : d.phase = .classified cs) (hw : w ∈ works cs) (hsettled : w.isSettled = true)
    (hfits : WrittenFits b s w.row) :
    Inv hash b { s with rows := flipEnrichStateIfGeneration (settledRow w.row now) w.row.generation s.rows } ∧
      Grows (rowOf b s.rows)
        (rowOf b (flipEnrichStateIfGeneration (settledRow w.row now) w.row.generation s.rows)) := by
  have hphase := h.phase d hd
  rw [hp] at hphase
  obtain ⟨hpairs, hworks⟩ := hphase
  have hcases := fun r (hr : rowOf b s.rows = some r) => rowOf_flip_cases (settledRow w.row now) w.row.generation hr
  have hspent : ∀ rows, State.spent { s with rows } b = s.spent b := fun _ => rfl
  -- the row it writes is the one it has read, no longer pending
  have hwritten : ∀ r, rowOf b s.rows = some r → w.row.blockId = b → r.generation = w.row.generation →
      (settledRow w.row now).attempts = r.attempts := by
    intro r hr hwb hgen
    show w.row.attempts = r.attempts
    rw [← ((hworks w hw hwb).2.2.get hr).1]
    exact (h.row r hr).toInt_attempts (hfits hwb r hr hgen)
  refine h.rewrite rfl rfl (h.unique.updateWhere fun _ _ => rfl) ?_ ?_ ?_
  · intro hnone
    refine ⟨?_, by rw [hspent]; exact h.absent hnone⟩
    rw [rowOf_flip, hnone]
    rfl
  · intro r hr
    obtain ⟨r', hr', ⟨hwb, hgen, rfl⟩ | rfl⟩ := hcases r hr
    · have hatt := hwritten r hr hwb hgen
      refine ⟨_, hr', le_of_eq hatt.symm, (h.row r hr).keep rfl hatt (le_refl _) fun hpend => ?_⟩
      exact absurd hpend (by simp [EnrichStateRow.isPending, EnrichStateRow.flip, settledRow])
    · exact ⟨_, hr', le_refl _, h.row _ hr⟩
  · intro d' hd'
    cases hd.symm.trans hd'
    rw [hp]
    refine ⟨hpairs, fun w' hw' hb => ?_⟩
    obtain ⟨hwork, hwithin, hon⟩ := hworks w' hw' hb
    refine ⟨hwork, fun hp' => (hwithin hp').mono fun r hr hroom => ?_, hon.mono fun r hr hfresh => ?_⟩
    · obtain ⟨r', hr', ⟨hwb, hgen, rfl⟩ | rfl⟩ := hcases r hr
      · refine ⟨_, hr', ?_⟩
        show _ ≤ (settledRow w.row now).attempts ∧ _
        rw [hwritten r hr hwb hgen]
        exact hroom
      · exact ⟨_, hr', hroom⟩
    · obtain ⟨r', hr', ⟨hwb, hgen, rfl⟩ | rfl⟩ := hcases r hr
      · refine ⟨_, hr', ?_, fun hns => ?_⟩
        · show toInt (settledRow w.row now).attempts = _
          rw [hwritten r hr hwb hgen, hfresh.1]
        · rw [hpairs.work_eq hw' hw (hb.trans hwb.symm), hsettled] at hns
          cases hns
      · exact ⟨_, hr', hfresh⟩

/-! ### The charges -/

theorem Fresh.charge {snap r : EnrichStateRow} (h : Fresh snap r) (terminalAt now : Int) :
    Charged snap (r.charge terminalAt now) := by
  refine ⟨h.generation, fun _ => ?_⟩
  show toInt (r.attempts + 1) = _
  rw [← h.attempts, toInt_toInt_add]

/-- A row that is not pending at the charge has moved on since the read. -/
theorem Fresh.charged {snap r : EnrichStateRow} (h : Fresh snap r) (hnot : ¬ r.isPending = true) : Charged snap r :=
  ⟨h.generation, fun heq => absurd (h.same heq) hnot⟩

theorem Fresh.charge_if {snap r : EnrichStateRow} (h : Fresh snap r) (terminalAt now : Int) {c : Prop} [Decidable c]
    (hc : c) : Charged snap (if r.isPending = true ∧ c then r.charge terminalAt now else r) := by
  split
  · exact h.charge terminalAt now
  · rename_i hnot
    exact h.charged fun hp => hnot ⟨hp, hc⟩

theorem RowOk.charge_if {spared : Prop} {q : Nat} {r : EnrichStateRow} (h : RowOk hash b spared q r)
    (terminalAt now : Int) (c : Prop) [Decidable c] :
    r.attempts ≤ (if c then r.charge terminalAt now else r).attempts ∧
      RowOk hash b spared q (if c then r.charge terminalAt now else r) := by
  split
  · refine ⟨?_, h.charge terminalAt now⟩
    show r.attempts ≤ r.attempts + 1
    omega
  · exact ⟨le_refl _, h⟩

theorem Inv.chargePart (h : Inv hash b s) {ids : List Nat} (hids : ids.Nodup) (now terminalAt : Int) (chunks : Nat)
    (hle : s.called.count b ≤ s.spent b) :
    Inv hash b { s with rows := chargeEnrichAttempts ids now terminalAt chunks s.rows, delivery := none } ∧
      Grows (rowOf b s.rows) (rowOf b (chargeEnrichAttempts ids now terminalAt chunks s.rows)) := by
  have hspent : ∀ rows, State.spent { s with rows, delivery := none } b = s.called.count b := fun _ => rfl
  refine h.rewrite rfl rfl (keyed_chargeEnrichAttempts h.unique ids now terminalAt chunks) ?_ ?_ ?_
  · intro hnone
    refine ⟨rowOf_chargeEnrichAttempts_none ids now terminalAt chunks hnone, ?_⟩
    rw [hspent]
    have := h.absent hnone
    omega
  · intro r hr
    refine ⟨_, rowOf_chargeEnrichAttempts_eq hids now terminalAt chunks hr, ?_⟩
    rw [hspent]
    exact ((h.row r hr).mono hle id).charge_if terminalAt now _
  · intro d' hd'
    cases hd'

theorem rowOf_chargeFull {ids : List Nat} (hids : ids.Nodup) {rows : List EnrichStateRow} {r : EnrichStateRow}
    (now terminalAt : Int) {chunks : Nat} (hall : ¬ chunks < (ids.toChunks 400).length) (hr : rowOf b rows = some r) :
    rowOf b (chargeEnrichAttempts ids now terminalAt chunks rows) =
      some (if r.isPending = true ∧ b ∈ ids then r.charge terminalAt now else r) := by
  rw [rowOf_chargeEnrichAttempts_eq hids now terminalAt chunks hr, List.take_of_length_le (by omega), flatten_toChunks]

theorem called_le_spent (s : State) (b : Nat) : s.called.count b ≤ s.spent b := Nat.le_add_right _ _

theorem Inv.chargeProvider (h : Inv hash b s) {cs : List (EnrichStateRow × Option Work)} (now : Int) (chunks : Nat)
    (hd : s.delivery = some d) (hp : d.phase = .classified cs) :
    Inv hash b (charge s d (providerIds cs) now (kMaxAttempts + 1) chunks (.charged cs)) ∧
      Grows (rowOf b s.rows)
        (rowOf b (charge s d (providerIds cs) now (kMaxAttempts + 1) chunks (.charged cs)).rows) := by
  have hphase := h.phase d hd
  rw [hp] at hphase
  obtain ⟨hpairs, hworks⟩ := hphase
  have hids := hpairs.providerIds_nodup
  have hspent : s.spent b = s.called.count b := by simp [State.spent, hd, hp, Phase.due]
  unfold DeliverySteps.charge
  split
  · exact h.chargePart hids now _ chunks (called_le_spent s b)
  · rename_i hall
    obtain ⟨hone, hwork⟩ := due_count (b := b) hpairs
    -- the calls the delivery is committed to from here on
    have hspent' : ∀ rows, State.spent (State.setPhase { s with rows } d (.charged cs)) b =
        s.called.count b + ((Phase.charged cs).due).count b := fun _ => rfl
    refine h.rewrite rfl rfl (keyed_chargeEnrichAttempts h.unique _ now _ chunks) ?_ ?_ ?_
    · intro hnone
      refine ⟨rowOf_chargeEnrichAttempts_none _ now _ chunks hnone, ?_⟩
      rw [hspent']
      have hzero := h.absent hnone
      by_contra hpos
      obtain ⟨w, hw, -, hb⟩ := hwork (by omega)
      obtain ⟨r, hr, -⟩ := (hworks w hw hb).2.2
      rw [hnone] at hr
      cases hr
    · intro r hr
      refine ⟨_, rowOf_chargeFull hids now (kMaxAttempts + 1) hall hr, ?_⟩
      rw [hspent']
      have hok := h.row r hr
      rw [hspent] at hok
      by_cases hpos : 0 < ((Phase.charged cs).due).count b
      · obtain ⟨w, hw, hprov, hb⟩ := hwork hpos
        obtain ⟨-, hwithin, hon⟩ := hworks w hw hb
        obtain ⟨-, hfresh⟩ := hon.get hr
        have hfresh := hfresh (isSettled_eq_false.mpr (.inl hprov))
        have hin : b ∈ providerIds cs := by
          rw [← hb]
          exact (hpairs.mem_providerIds hw).mpr hprov
        have hcount : ((Phase.charged cs).due).count b = 1 := by omega
        rw [hcount]
        have hroom : Within (s.called.count b) r := (hwithin hprov).get hr
        by_cases hpend : r.isPending = true
        · rw [if_pos ⟨hpend, hin⟩]
          refine ⟨?_, hok.charge_call hroom now⟩
          show r.attempts ≤ r.attempts + 1
          omega
        · rw [if_neg fun hc => hpend hc.1]
          have hcap : 8 ≤ r.attempts := by
            rcases hfresh.capped with hc | hc
            · exact absurd hc hpend
            · exact hc
          exact ⟨le_refl _, hok.late_call hroom.2 (by simpa using hpend) hcap⟩
      · have hcount : ((Phase.charged cs).due).count b = 0 := by omega
        rw [hcount]
        exact hok.charge_if _ now _
    · intro d' hd'
      cases hd'
      refine ⟨hpairs, fun w hw hb => ?_⟩
      obtain ⟨hwork', -, hon⟩ := hworks w hw hb
      refine ⟨hwork', hon.mono fun r hr hrow => ⟨_, rowOf_chargeFull hids now (kMaxAttempts + 1) hall hr, ?_, ?_⟩⟩
      · intro hprov
        have hin : b ∈ providerIds cs := by
          rw [← hb]
          exact (hpairs.mem_providerIds hw).mpr hprov
        exact (hrow.2 (isSettled_eq_false.mpr (.inl hprov))).charge_if _ now hin
      · intro hlabel
        have hnotin : b ∉ providerIds cs := by
          rw [← hb, hpairs.mem_providerIds hw, isLabelOnly_not_provider hlabel]
          decide
        rw [if_neg fun hc => hnotin hc.2]
        exact hrow.2 (isSettled_eq_false.mpr (.inr hlabel))

theorem due_groups (cs : List (EnrichStateRow × Option Work)) (labelOnly : List Work) (repairs : List Repair) :
    ((Phase.calling (groups (works cs)) labelOnly repairs).due).count b = ((Phase.charged cs).due).count b :=
  ((groups_perm (works cs)).map _).count_eq b

theorem Inv.chargeLabelOnly (h : Inv hash b s) {cs : List (EnrichStateRow × Option Work)} (now : Int) (chunks : Nat)
    (hd : s.delivery = some d) (hp : d.phase = .charged cs) :
    Inv hash b (charge s d (labelOnlyIds cs) now kEnrichNoTerminal chunks
        (.calling (groups (works cs)) ((works cs).filter Work.isLabelOnly) [])) ∧
      Grows (rowOf b s.rows) (rowOf b (charge s d (labelOnlyIds cs) now kEnrichNoTerminal chunks
        (.calling (groups (works cs)) ((works cs).filter Work.isLabelOnly) [])).rows) := by
  have hphase := h.phase d hd
  rw [hp] at hphase
  obtain ⟨hpairs, hworks⟩ := hphase
  have hids := hpairs.labelOnlyIds_nodup
  unfold DeliverySteps.charge
  split
  · exact h.chargePart hids now _ chunks (called_le_spent s b)
  · rename_i hall
    have hspent : ∀ rows, State.spent (State.setPhase { s with rows } d
        (.calling (groups (works cs)) ((works cs).filter Work.isLabelOnly) [])) b = s.spent b := by
      intro rows
      have hdue := due_groups (b := b) cs ((works cs).filter Work.isLabelOnly) []
      simp only [State.spent, State.setPhase, hd, hp, Option.map_some, Option.getD_some, hdue]
    refine h.rewrite rfl rfl (keyed_chargeEnrichAttempts h.unique _ now _ chunks) ?_ ?_ ?_
    · intro hnone
      refine ⟨rowOf_chargeEnrichAttempts_none _ now _ chunks hnone, ?_⟩
      rw [hspent]
      exact h.absent hnone
    · intro r hr
      refine ⟨_, rowOf_chargeFull hids now kEnrichNoTerminal hall hr, ?_⟩
      rw [hspent]
      exact (h.row r hr).charge_if _ now _
    · intro d' hd'
      cases hd'
      refine ⟨fun w hw => isLabelOnly_stored (List.mem_filter.mp hw).2, fun w hw hb => ?_, fun r hr => absurd hr (by simp)⟩
      have hkind : w ∈ works cs ∧ (w.isProvider = true ∨ w.isLabelOnly = true) := by
        rcases List.mem_append.mp hw with hg | hl
        · have hmem := List.mem_filter.mp ((groups_perm (works cs)).mem_iff.mp hg)
          exact ⟨hmem.1, .inl hmem.2⟩
        · have hmem := List.mem_filter.mp hl
          exact ⟨hmem.1, .inr hmem.2⟩
      obtain ⟨hwork', hon⟩ := hworks w hkind.1 hb
      refine ⟨hwork', hon.mono fun r hr hrow => ⟨_, rowOf_chargeFull hids now kEnrichNoTerminal hall hr, ?_⟩⟩
      rcases hkind.2 with hprov | hlabel
      · have hnotin : b ∉ labelOnlyIds cs := by
          rw [← hb, hpairs.mem_labelOnlyIds hkind.1]
          intro hl
          rw [isLabelOnly_not_provider hl] at hprov
          cases hprov
        rw [if_neg fun hc => hnotin hc.2]
        exact hrow.1 hprov
      · have hin : b ∈ labelOnlyIds cs := by
          rw [← hb]
          exact (hpairs.mem_labelOnlyIds hkind.1).mpr hlabel
        exact (hrow.2 hlabel).charge_if _ now hin

/-! ### The calls and the writes -/

theorem Inv.call (h : Inv hash b s) {g : Bucket Work} {todo : List (Bucket Work)} {labelOnly : List Work}
    {repairs : List Repair} (chain : EnricherChain) (hd : s.delivery = some d)
    (hp : d.phase = .calling (g :: todo) labelOnly repairs) :
    Inv hash b (State.setPhase { s with called := s.called ++ g.all.map fun (w : Work) => w.row.blockId } d
        (.calling todo labelOnly (repairs ++ callChain chain d.children s.store.parents g))) ∧
      Grows (rowOf b s.rows) (rowOf b s.rows) := by
  have hphase := h.phase d hd
  rw [hp] at hphase
  obtain ⟨hlabels, hworks, hrepairs⟩ := hphase
  refine h.quiet rfl rfl h.blocks id ?_ ?_
  · simp only [State.spent, State.setPhase, hd, hp, Option.map_some, Option.getD_some, Phase.due, List.flatMap_cons,
      List.map_append, List.count_append]
    omega
  · intro d' hd'
    cases hd'
    refine ⟨hlabels, fun w hw hb => hworks w ?_ hb, fun r hr hb => ?_⟩
    · rw [List.flatMap_cons, List.append_assoc]
      exact List.mem_append_right _ hw
    · rcases List.mem_append.mp hr with hold | hnew
      · exact hrepairs r hold hb
      · obtain ⟨w, hw, res, hsound, rfl⟩ := mem_callChain hnew
        obtain ⟨hwork, hcharged⟩ := hworks w (by
          rw [List.flatMap_cons, List.append_assoc]
          exact List.mem_append_left _ hw) hb
        exact ⟨hwork.block, hwork.stored, hsound, hcharged⟩

theorem RepairOk.kept {row : Option EnrichStateRow} {spared spared' : Prop} {r r' : Repair} (h : RepairOk b row spared r)
    (hk : r.Kept r') (hcolumns : r'.ctxColumnsPresent = true → spared') : RepairOk b row spared' r' where
  block := by
    rw [hk.block]
    exact h.block
  columns := hcolumns
  sound := by
    rw [hk.merged]
    exact h.sound
  charged := by
    rw [hk.row]
    exact h.charged

theorem Inv.assemble (h : Inv hash b s) {labelOnly : List Work} {repairs rs : List Repair} {blocks : List Block}
    {points : List (Embedding × Nat)} (hd : s.delivery = some d) (hp : d.phase = .calling [] labelOnly repairs)
    (hrs : ∀ x ∈ rs, ∃ r ∈ repairs ++ labelOnly.map labelOnlyRepair, r.Kept x ∧
      x.ctxColumnsPresent = r.ctxColumnsPresent)
    (hblocks : ∀ x ∈ blocks, x ∈ s.store.blocks ∨ x.childId = "")
    (hs : Spared b s.store.blocks → Spared b blocks) :
    Inv hash b (State.setPhase { s with store := { s.store with blocks, points } } d (.persisting rs [])) ∧
      Grows (rowOf b s.rows) (rowOf b s.rows) := by
  have hphase := h.phase d hd
  rw [hp] at hphase
  obtain ⟨hlabels, hworks, hrepairs⟩ := hphase
  refine h.quiet rfl rfl ?_ hs (by simp [State.spent, State.setPhase, hd, hp, Phase.due]) ?_
  · intro x hx hne
    rcases hblocks x hx with hold | hnew
    · exact h.blocks x hold hne
    · exact absurd hnew hne
  · intro d' hd'
    cases hd'
    intro x hx hb
    rw [List.append_nil] at hx
    obtain ⟨r, hr, hkept, hcolumns⟩ := hrs x hx
    have hrb : r.row.blockId = b := by
      rw [← hkept.row]
      exact hb
    have hok : RepairOk b (rowOf b s.rows) (Spared b s.store.blocks) r := by
      rcases List.mem_append.mp hr with hold | hlabel
      · exact hrepairs r hold hrb
      · obtain ⟨w, hw, rfl⟩ := List.mem_map.mp hlabel
        obtain ⟨hwork, hcharged⟩ := hworks w (by simpa using hw) hrb
        exact ⟨hwork.block, fun _ => hwork.stored (hlabels w hw), fun hv => absurd hv (by simp [labelOnlyRepair]),
          hcharged⟩
    refine hok.kept hkept fun hc => hs (hok.columns ?_)
    rw [← hcolumns]
    exact hc

theorem spared_writeContextualized {m : EnrichResult} (hsound : EnricherChain.Sound m) (hv : m.vector.isSome = true)
    (blocks : List Block) : Spared b (writeContextualized b m blocks) := by
  have hemb : m.contextualizedEmbedding.isSome = true := by
    obtain ⟨v, hv⟩ := Option.isSome_iff_exists.mp hv
    rw [(Option.filter_eq_some_iff.mp hv).1]
    rfl
  have hran : f35Ran m = true := by simp [f35Ran, hemb]
  unfold writeContextualized
  rw [if_pos hran]
  rcases hx : blockOf b (updateWhere (fun x => x.blockId == b) (fun x : Block => { x with
      contextualizedText := m.contextualizedText
      contextualizedEmbedding := m.vector
      contextualizedStatus := m.contextualizedStatus }) blocks) with - | x
  · exact .inr hx
  · refine .inl ?_
    obtain ⟨hmem, hb⟩ := lookup_eq_some hx
    obtain ⟨x₀, -, hx₀⟩ := List.mem_map.mp hmem
    have hid : x₀.blockId = b := by
      rw [← hb, ← hx₀]
      split <;> rfl
    rw [if_pos (by simpa using hid)] at hx₀
    unfold storedVector
    rw [hx, ← hx₀]
    show (Block.vector _).isSome = true
    unfold Block.vector
    rw [if_pos (hsound hemb)]
    unfold EnrichResult.vector at hv ⊢
    simpa [Option.filter_filter] using hv

theorem Inv.persist (h : Inv hash b s) {r : Repair} {todo done : List Repair} (f : Faults) (hd : s.delivery = some d)
    (hp : d.phase = .persisting (r :: todo) done)
    (hs : Spared b s.store.blocks → Spared b (persist f r s.store).2.blocks) :
    Inv hash b (State.setPhase { s with store := (persist f r s.store).2 } d
        (.persisting todo (done ++ [(persist f r s.store).1]))) ∧ Grows (rowOf b s.rows) (rowOf b s.rows) := by
  have hphase := h.phase d hd
  rw [hp] at hphase
  have hpersisted := persisted_persist (r := r) f s.store
  refine h.quiet rfl rfl ?_ hs (by simp [State.spent, State.setPhase, hd, hp, Phase.due]) ?_
  · intro x hx hne
    obtain ⟨x₀, hx₀, hc, hb⟩ := hpersisted.edited.mem hx
    rw [hb, hc]
    exact h.blocks x₀ hx₀ (by rw [← hc]; exact hne)
  · intro d' hd'
    cases hd'
    intro x hx hb
    rw [← List.append_assoc, List.mem_append, List.mem_singleton] at hx
    rcases hx with hold | rfl
    · refine (hphase x ?_ hb).outside (fun r hr => ⟨r, hr, Outside.refl r⟩) hs
      rw [List.cons_append]
      exact List.mem_cons_of_mem _ hold
    · have hok := hphase r (by simp) (by rw [← hpersisted.kept.row]; exact hb)
      refine hok.kept hpersisted.kept fun hc => ?_
      rcases persist_columns f s.store hc with hold | ⟨hv, blocks, hblocks⟩
      · exact hs (hok.columns hold)
      · show Spared b (BackfillWorker.persist f r s.store).2.blocks
        rw [hblocks, hok.block]
        exact spared_writeContextualized hok.sound hv blocks

theorem Inv.flip (h : Inv hash b s) {x : Repair} {todo : List Repair} (now : Int) (hd : s.delivery = some d)
    (hp : d.phase = .flipping (x :: todo)) (hfits : WrittenFits b s x.row) :
    Inv hash b (State.setPhase { s with rows := flipEnrichStateIfGeneration (flipRow now x) x.row.generation s.rows } d
        (.flipping todo)) ∧
      Grows (rowOf b s.rows) (rowOf b (flipEnrichStateIfGeneration (flipRow now x) x.row.generation s.rows)) := by
  have hphase := h.phase d hd
  rw [hp] at hphase
  obtain ⟨hid, hatt, hpend⟩ := flipRow_spec now x
  have hcases := fun r (hr : rowOf b s.rows = some r) => rowOf_flip_cases (flipRow now x) x.row.generation hr
  have hspent : ∀ rows, State.spent (State.setPhase { s with rows } d (.flipping todo)) b = s.spent b := by
    intro rows
    simp only [State.spent, State.setPhase, hd, hp, Option.map_some, Option.getD_some, Phase.due]
  -- a write that finds its row writes the attempts the row has
  have hsame : ∀ r, rowOf b s.rows = some r → x.row.blockId = b → r.generation = x.row.generation →
      (flipRow now x).attempts = r.attempts := by
    intro r hr hxb hgen
    rw [hatt, ← ((hphase x (by simp) hxb).charged.get hr).same hgen]
    exact (h.row r hr).toInt_attempts (hfits hxb r hr hgen)
  refine h.rewrite rfl rfl (h.unique.updateWhere fun _ _ => rfl) ?_ ?_ ?_
  · intro hnone
    refine ⟨?_, by rw [hspent]; exact h.absent hnone⟩
    show rowOf b (flipEnrichStateIfGeneration _ _ s.rows) = none
    rw [rowOf_flip, hnone]
    rfl
  · intro r hr
    have hok := h.row r hr
    obtain ⟨r', hr', ⟨hxb, hgen, rfl⟩ | rfl⟩ := hcases r hr
    · rw [hid] at hxb
      have hsame := hsame r hr hxb hgen
      refine ⟨_, hr', le_of_eq hsame.symm, ?_⟩
      rw [hspent]
      refine ⟨hok.keyed, hok.generation, ?_, hok.bound, fun hpend' => ?_⟩
      · show (flipRow now x).attempts ≤ 7 → _ ≤ (flipRow now x).attempts
        rw [hsame]
        exact hok.early
      · rcases hpend hpend' with hlt | ⟨hmembers, hcolumns⟩
        · rw [← hatt, hsame] at hlt
          have hmax : kMaxAttempts = 8 := rfl
          have hle := hok.early (by omega)
          refine .inr ⟨?_, by omega⟩
          show _ ≤ (flipRow now x).attempts
          rw [hsame]
          exact hle
        · exact .inl ⟨hmembers, (hphase x (by simp) hxb).columns hcolumns⟩
    · refine ⟨_, hr', le_refl _, ?_⟩
      rw [hspent]
      exact hok
  · intro d' hd'
    cases hd'
    intro x' hx' hb
    have hok := hphase x' (by simp [hx']) hb
    refine ⟨hok.block, hok.columns, hok.sound, hok.charged.mono fun r hr hc => ?_⟩
    obtain ⟨r', hr', ⟨hxb, hgen, rfl⟩ | rfl⟩ := hcases r hr
    · refine ⟨_, hr', hc.generation, fun hgen' => ?_⟩
      show toInt (flipRow now x).attempts = _
      rw [hsame r hr (hid ▸ hxb) hgen]
      exact hc.same hgen'
    · exact ⟨_, hr', hc⟩

theorem Inv.stop (h : Inv hash b s) :
    Inv hash b { s with delivery := none } ∧ Grows (rowOf b s.rows) (rowOf b s.rows) :=
  h.quiet rfl rfl h.blocks id (called_le_spent s b) fun _ hd' => by cases hd'

theorem inv_deliveryStep {a : Act} (h : Inv hash b s) (hd : s.delivery = some d) (hfits : AttemptsFit b s a)
    (hs : Spared b s.store.blocks → Spared b s'.store.blocks) (hstep : deliveryStep hash docId s d d.phase a = some s') :
    Inv hash b s' ∧ Grows (rowOf b s.rows) (rowOf b s'.rows) := by
  generalize hp : d.phase = p at hstep
  unfold deliveryStep at hstep
  split at hstep
  · cases hstep
    exact h.classify hd hp
  · split at hstep
    · rename_i hw
      cases hstep
      exact h.settle hd hp hw.1 hw.2 (hfits _ (by simp [writtenBack]))
    · cases hstep
  · cases hstep
    exact h.chargeProvider _ _ hd hp
  · cases hstep
    exact h.chargeLabelOnly _ _ hd hp
  · cases hstep
    exact h.call _ hd hp
  · rename_i labelOnly repairs env
    dsimp only at hstep
    split at hstep
    · cases hstep
      exact h.stop
    · rename_i blocks hins
      cases hstep
      refine h.assemble hd hp (fun x hx => mem_assemble hx) ?_ hs
      intro x hx
      rw [insertBlocks_eq_some hins, List.mem_append] at hx
      rcases hx with hold | hnew
      · exact .inl hold
      · rcases mem_assemble_blocks hnew with hno | hnew
        · exact absurd hno (by simp)
        · exact .inr hnew
  · cases hstep
    exact h.persist _ hd hp hs
  · cases hstep
    rename_i done
    refine h.quiet rfl rfl h.blocks id (by simp [State.spent, State.setPhase, hd, hp, Phase.due]) ?_
    intro d' hd'
    cases hd'
    have hphase := h.phase d hd
    rw [hp] at hphase
    exact fun x hx => hphase x (by simpa using hx)
  · rename_i x todo now written
    cases hstep
    rcases written
    · refine h.quiet rfl rfl h.blocks id (by simp [State.spent, State.setPhase, hd, hp, Phase.due]) ?_
      intro d' hd'
      cases hd'
      have hphase := h.phase d hd
      rw [hp] at hphase
      exact fun x' hx' => hphase x' (by simp [hx'])
    · exact h.flip now hd hp (hfits _ (by simp [writtenBack, hd, hp]))
  · cases hstep
    exact h.stop
  · cases hstep

end Delivery

/-! ## Runs -/

section Runs

variable {hash : String → Nat} {docId : String} {b : Nat} {s s' : State} {a : Act}

/-- The step leaves the chunk spared: its vector, once written, stays with it, and a chunk that is gone does not come back
without one. -/
def Kept (hash : String → Nat) (docId : String) (b : Nat) (s : State) (a : Act) : Prop :=
  match step hash docId s a with
  | some s' => Spared b s.store.blocks → Spared b s'.store.blocks
  | none => True

instance (hash : String → Nat) (docId : String) (b : Nat) (s : State) (a : Act) : Decidable (Kept hash docId b s a) :=
  match h : step hash docId s a with
  | some s' => decidable_of_iff (Spared b s.store.blocks → Spared b s'.store.blocks) (by unfold Kept; rw [h])
  | none => .isTrue (by unfold Kept; rw [h]; trivial)

theorem inv_step (h : Inv hash b s) (hk : Kept hash docId b s a ∧ AttemptsFit b s a) (hstep : step hash docId s a = some s') :
    Inv hash b s' ∧ Grows (rowOf b s.rows) (rowOf b s'.rows) := by
  have hs : Spared b s.store.blocks → Spared b s'.store.blocks := by
    have hkept := hk.1
    unfold Kept at hkept
    rwa [hstep] at hkept
  have hdelivery : ∀ a', AttemptsFit b s a' → (s.delivery.bind fun d => deliveryStep hash docId s d d.phase a') = some s' →
      Inv hash b s' ∧ Grows (rowOf b s.rows) (rowOf b s'.rows) := by
    intro a' hfits ha'
    obtain ⟨d, hd, hds⟩ := Option.bind_eq_some_iff.mp ha'
    exact inv_deliveryStep h hd hfits hs hds
  rcases a with _ | _ | ⟨w, now⟩ | ⟨now, chunks⟩ | ⟨now, chunks⟩ | chain | env | f | _ | ⟨now, written⟩ | _ |
    ⟨configured, now⟩ | k | ⟨k, b'⟩ | k | ⟨doc, leaseUntil, now⟩ | now | store
  case list =>
    simp only [step] at hstep
    split at hstep
    · rename_i hd
      cases hstep
      exact h.list hd
    · cases hstep
  case auditRead =>
    cases hstep
    refine h.reaudit fun a' ha' w t hw => ?_
    rcases List.mem_append.mp ha' with hold | hnew
    · exact h.audits a' hold w t hw
    · rw [List.mem_singleton.mp hnew] at hw
      cases hw
  case auditTrack =>
    simp only [step, Option.bind_eq_bind, Option.bind_eq_some_iff] at hstep
    obtain ⟨a, ha, hstep⟩ := hstep
    cases hstep
    refine h.reaudit fun a' ha' w t hw => ?_
    rcases List.mem_or_eq_of_mem_set ha' with hold | rfl
    · exact h.audits a' hold w t hw
    · exact h.audits a (List.mem_of_getElem? ha) w t hw
  case auditScan =>
    simp only [step, Option.bind_eq_bind, Option.bind_eq_some_iff] at hstep
    obtain ⟨a, ha, x, hx, hstep⟩ := hstep
    split at hstep
    · cases hstep
      refine h.reaudit fun a' ha' w t hw hb => ?_
      rcases List.mem_or_eq_of_mem_set ha' with hold | rfl
      · exact h.audits a' hold w t hw hb
      · obtain ⟨hmem, -⟩ := lookup_eq_some hx
        obtain ⟨hwb, hok⟩ := auditBlock_reowe hw hx (h.blocks x hmem)
        rw [hwb] at hb
        rwa [hb] at hok
    · cases hstep
  case auditWrite =>
    simp only [step, Option.bind_eq_bind, Option.bind_eq_some_iff] at hstep
    obtain ⟨a, ha, w, hw, hstep⟩ := hstep
    cases hstep
    exact h.auditWrite (List.mem_of_getElem? ha) hw
  case lease =>
    cases hstep
    exact h.retime
  case makeAllPendingDueNow =>
    cases hstep
    exact h.retime
  case writeStore =>
    simp only [step] at hstep
    split at hstep
    · rename_i hkeyed
      cases hstep
      refine h.outside rfl rfl h.unique hkeyed hs (fun r hr hok => ⟨r, hr, Outside.refl r, hok⟩) ?_ ?_
      · exact fun hnone r' hr' => absurd (hnone.symm.trans hr') (by simp)
      · exact fun a' ha' w t hw hb => (h.audits a' ha' w t hw hb).mono hs
    · cases hstep
  all_goals exact hdelivery _ hk.2 hstep

/-- Before the first delivery: no call was made, and the row of the block, if there is one, has counted no less. -/
structure Start (hash : String → Nat) (b : Nat) (s : State) : Prop where
  idle : s.delivery = none ∧ s.audits = [] ∧ s.called = []
  unique : Keyed EnrichStateRow.blockId s.rows
  blocks : BlocksKeyed hash s.store.blocks
  row : ∀ r, rowOf b s.rows = some r → KeyedBy hash r.childId b ∧ 0 ≤ r.attempts ∧ 0 ≤ r.generation

theorem Start.inv (h : Start hash b s) : Inv hash b s := by
  obtain ⟨hd, ha, hc⟩ := h.idle
  have hspent : s.spent b = 0 := by simp [State.spent, hd, hc]
  refine ⟨h.unique, h.blocks, fun _ => hspent, fun r hr => ?_, fun d hd' => ?_, fun a ha' => ?_⟩
  · obtain ⟨hkey, hatt, hgen⟩ := h.row r hr
    rw [hspent]
    exact ⟨hkey, hgen, fun _ => hatt, by decide, fun _ => .inr ⟨hatt, by decide⟩⟩
  · rw [hd] at hd'
    cases hd'
  · rw [ha] at ha'
    exact absurd ha' (by simp)

theorem inv_run {acts : List Act} (h : Inv hash b s)
    (hk : Along (step hash docId) (fun s a => Kept hash docId b s a ∧ AttemptsFit b s a) s acts)
    (hrun : run (step hash docId) s acts = some s') : Inv hash b s' ∧ Grows (rowOf b s.rows) (rowOf b s'.rows) := by
  refine run_inv (I := fun u => Inv hash b u ∧ Grows (rowOf b s.rows) (rowOf b u.rows)) ?_ ⟨h, Grows.refl _⟩ hk hrun
  rintro u a u' ⟨hu, hgrow⟩ hka hstep
  obtain ⟨hu', hgrow'⟩ := inv_step hu hka hstep
  exact ⟨hu', hgrow.trans hgrow'⟩

/-- In a run whose deliveries write back no count past an `int`, the chunk of a row is passed to the chain at most two
times more than the cap on its attempts, and the attempts of the row never go down. -/
theorem provider_spend_bounded (hash : String → Nat) (docId : String) (b : Nat) (s₀ s₁ s₂ : State) (acts₁ acts₂ : List Act)
    (hstart : Start hash b s₀) (h₁ : run (step hash docId) s₀ acts₁ = some s₁)
    (h₂ : run (step hash docId) s₁ acts₂ = some s₂)
    (hkept : Along (step hash docId) (fun s a => Kept hash docId b s a ∧ AttemptsFit b s a) s₀ (acts₁ ++ acts₂)) :
    (s₂.called.count b : Int) ≤ kEnrichMaxAttempts + 2 ∧
      ∀ r₁, rowOf b s₁.rows = some r₁ → ∃ r₂, rowOf b s₂.rows = some r₂ ∧ r₁.attempts ≤ r₂.attempts := by
  have hcut := along_append.mp hkept
  obtain ⟨hinv₁, -⟩ := inv_run hstart.inv hcut.1 h₁
  obtain ⟨hinv₂, hgrows⟩ := inv_run hinv₁ (hcut.2 s₁ h₁) h₂
  refine ⟨?_, hgrows⟩
  have hle := called_le_spent s₂ b
  have hbound : s₂.spent b ≤ 10 := by
    rcases hrow : rowOf b s₂.rows with - | r
    · rw [hinv₂.absent hrow]
      decide
    · exact (hinv₂.row r hrow).bound
  have hmax : kEnrichMaxAttempts + 2 = 10 := rfl
  omega

/-! ## One delivery that ends and nine that crash -/

def owingStore : UnitStore where
  blocks := [⟨7, "doc", "c7", "", 0, 1, "text", {}, none, none, none, 0⟩]
  labels := some []
  docs := [("doc", 3)]
  parents := []
  points := []

def owingState : State :=
  ⟨owingStore, [⟨7, "doc", "c7", .pendingRetry, "f03", 0, [], some 60, 0, 0⟩], none, [], []⟩

def hashC7 (childId : String) : Nat := if childId = "c7" then 7 else 0

def slowChain : EnricherChain where
  enrichers := [.head ⟨"LlmEnricher", true, fun ctxs => .ok (ctxs.map fun _ => ⟨1, "", 0, "timeout", "", ""⟩)⟩]
  oneContextual := by decide

def plainWriter : Writer where
  docId := "doc"
  hashChildIdToBlockId := hashC7
  indexDim := 1
  embed _ := .ok [0]
  generateUlid n := toString n

def written : List Act := [.assemble plainWriter, .persist {}, .commit, .flip 100 true, .stop]

/-- A delivery whose call fails and that writes so. -/
def timedOut : List Act := [.list, .classify, .chargeProvider 100 1, .chargeLabelOnly 100 0, .call slowChain] ++ written

/-- A delivery that is lost after its call. -/
def crashed : List Act := [.list, .classify, .chargeProvider 100 1, .chargeLabelOnly 100 0, .call slowChain, .stop]

theorem provider_spend_bounded_crashes : ∃ s,
    run (step hashC7 "doc") owingState (timedOut ++ (List.replicate 9 crashed).flatten) = some s ∧
      s.called.count 7 = 10 ∧ (s.called.count 7 : Int) ≤ kEnrichMaxAttempts + 2 := by
  have hrun : ((run (step hashC7 "doc") owingState (timedOut ++ (List.replicate 9 crashed).flatten)).map
      fun s => s.called.count 7) = some 10 := by decide +kernel
  obtain ⟨s, hs, hcount⟩ := Option.map_eq_some_iff.mp hrun
  obtain ⟨s₁, h₁, h₂⟩ := run_append.mp hs
  have hstart : Start hashC7 7 owingState := ⟨⟨rfl, rfl, rfl⟩, by decide, by decide, by
    intro r hr
    cases hr
    decide⟩
  exact ⟨s, hs, hcount, (provider_spend_bounded hashC7 "doc" 7 owingState s₁ s timedOut (List.replicate 9 crashed).flatten
    hstart h₁ h₂ (by decide +kernel)).1⟩

/-! ## A count that an `int` does not hold -/

/-- The row owes the label alone, and its count is at the last `int`. -/
def labelState : State where
  store := { owingStore with
    blocks := [⟨7, "doc", "c7", "", 0, 1, "text", {}, none, some "context", some [0], 1⟩] }
  rows := [⟨7, "doc", "c7", .pendingRetry, "f35", 2 ^ 31 - 1, [], some 60, 0, 0⟩]
  delivery := none
  audits := []
  called := []

def labelDelivery : List Act := [.list, .classify, .chargeProvider 100 0, .chargeLabelOnly 100 1] ++ written

theorem labelState_start : Start hashC7 7 labelState := ⟨⟨rfl, rfl, rfl⟩, by decide, by decide, by
  intro r hr
  cases hr
  decide⟩

/-- The flip of a delivery that calls no provider leaves a negative count. -/
theorem attempts_decrease : ∃ s, Start hashC7 7 labelState ∧
    run (step hashC7 "doc") labelState labelDelivery = some s ∧
    Along (step hashC7 "doc") (Kept hashC7 "doc" 7) labelState labelDelivery ∧
    (rowOf 7 labelState.rows).map EnrichStateRow.attempts = some (2 ^ 31 - 1) ∧
    (rowOf 7 s.rows).map EnrichStateRow.attempts = some (-2 ^ 31) := by
  have hrun : ((run (step hashC7 "doc") labelState labelDelivery).bind fun s =>
      (rowOf 7 s.rows).map EnrichStateRow.attempts) = some (-2 ^ 31) := by decide +kernel
  obtain ⟨s, hs, hatt⟩ := Option.bind_eq_some_iff.mp hrun
  exact ⟨s, labelState_start, hs, by decide +kernel, rfl, hatt⟩

end Runs

end Cortrix.Spc.DeliverySteps
