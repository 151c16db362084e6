import Cortrix.Spc.DeliveryWrites

/-!
# Rows that are called repaired

A delivery flips a row to `ok` when no owed member is known to have failed. The audit asks for the artifacts. The two
agree on a row exactly when the chain reports every owed member that it does not deliver: a member that is skipped, or
that returns nothing, is neither reported nor delivered.

* `repaired_iff_honest`; `unscored_not_repaired` : a row owing `f03` behind a head that is not available.
-/

namespace Cortrix.Spc.BackfillWorker
open Lib

/-- The members of a row; a row that names none owes them all. -/
def owedTokens (row : EnrichStateRow) : List String :=
  if row.failedMembers.isEmpty then ["f03", "f35", "f38"] else splitCsv row.failedMembers

/-! ## Repaired rows -/

/-- The artifact of a member is there, where the ingest's gates expect one. -/
structure Present (st : UnitStore) (x : Block) (tok : String) : Prop where
  f03 : tok = "f03" → x.enrichedScore.isSome
  f35 : tok = "f35" → x.contextualizedStatus = 1 ∧
    (indexPointsExpected (docLevelOf st.docs x.docId) x.metadata.skipIndex → ∀ ls, st.labels = some ls →
      ∃ l ∈ ls, l.blockId = x.blockId)
  f38 : tok = "f38" → hypeBlocksExpected (docLevelOf st.docs x.docId) → x.childId ∈ hypeSources st.blocks

/-- The artifacts of the members are there, and an audit that runs next leaves the row alone for them. -/
structure Repaired (b : Nat) (toks : List String) (st : UnitStore) (rows : List EnrichStateRow) : Prop where
  present : ∀ x, blockOf b st.blocks = some x → ∀ tok ∈ toks, Present st x tok
  spared : ∀ configured now r, rowOf b (synthesizeEnrichAuditRows configured now st rows) = some r →
    r.isPending = true → ∀ tok ∈ toks, tok ∉ owedTokens r

/-- Block ids are the hashes of the child ids, in the blocks and in the rows, and both tables have their keys. -/
structure WellKeyed (hash : String → Nat) (st : UnitStore) (rows : List EnrichStateRow) : Prop where
  rowKeys : Keyed EnrichStateRow.blockId rows
  blockKeys : Keyed Block.blockId st.blocks
  blockIds : BlocksKeyed hash st.blocks
  rowIds : ∀ r ∈ rows, KeyedBy hash r.childId r.blockId

/-! ## Honest outcomes -/

section Conditions

variable (env : Writer) (st : UnitStore)

def reports (p : Work × ChunkChainResult) : Bool :=
  p.1.members.any (memberFailed p.2) || refused env st.labels p.1 ||
    hypeFails env (hypeBlocksExpected (docLevelOf st.docs env.docId)) (hypeSources st.blocks) p ||
    (labelAdded env st.labels p).isSome && st.labels.isNone

/-- A label row names the block, from before or as the last that the delivery adds under its label. -/
def LabelStands (added : List ContextualVecLabelRow) (b : Nat) : Prop :=
  ∀ ls, st.labels = some ls → (∃ l ∈ ls, l.blockId = b) ∨
    ∃ l ∈ added, l.blockId = b ∧ (added.filter fun l' => l'.label == l.label).getLast? = some l

/-- The member's artifact is there already or comes with the outcome. -/
structure Delivered (outs : List (Work × ChunkChainResult)) (p : Work × ChunkChainResult) (tok : String) : Prop where
  f03 : tok = "f03" → p.1.block.enrichedScore.isSome ∨ p.2.merged.ok = true ∧ p.2.merged.enricherName ≠ ""
  f35 : tok = "f35" →
    (if p.1.members.contains "f35" && f35Ran p.2.merged then p.2.merged.contextualizedStatus
      else p.1.block.contextualizedStatus) = 1 ∧
    (p.1.labelExpected = true → LabelStands st (outs.filterMap (labelAdded env st.labels)) p.1.block.blockId)
  f38 : tok = "f38" → hypeBlocksExpected (docLevelOf st.docs env.docId) →
    p.1.block.childId ∈ hypeSources st.blocks ∨ p.2.hypeQuestions ≠ []

def deliveryOutcomes (chain : EnricherChain) (rows : List EnrichStateRow) : List (Work × ChunkChainResult) :=
  outcomesOf chain env.docId st (works (classifyAll env.docId st (listEnrichStateForDoc env.docId rows)))

/-- What the chain does not deliver for a row, it reports. -/
def Honest (chain : EnricherChain) (rows : List EnrichStateRow) (row : EnrichStateRow) : Prop :=
  ∀ p ∈ deliveryOutcomes env st chain rows, p.1.row = row →
    reports env st p = true ∨ ∀ tok ∈ owedTokens row, Delivered env st (deliveryOutcomes env st chain rows) p tok

end Conditions

/-! ## The audit -/

variable {st st' : UnitStore} {x : Block} {tok : String} {rows rows' : List EnrichStateRow} {b : Nat}

theorem mem_owedMembers {v : AuditView} : tok ∈ v.owedMembers x ↔
    tok = "f03" ∧ "f03" ∈ v.configured ∧ x.enrichedScore = none ∨
    tok = "f35" ∧ "f35" ∈ v.configured ∧ v.f35Done x = false ∨
    tok = "f38" ∧ "f38" ∈ v.configured ∧ v.hypeExpected x = true ∧ x.childId ∉ v.hypeSources := by
  unfold AuditView.owedMembers
  rw [List.mem_append, List.mem_append]
  refine or_congr ?_ (or_congr ?_ ?_)
  · split <;> simp_all
  · split <;> simp_all
  · split <;> simp_all

theorem f35Done_iff (configured : List String) : (AuditView.ofStore configured st).f35Done x = true ↔
    x.contextualizedStatus = 1 ∧ (indexPointsExpected (docLevelOf st.docs x.docId) x.metadata.skipIndex →
      ∀ ls, st.labels = some ls → ∃ l ∈ ls, l.blockId = x.blockId) := by
  unfold AuditView.f35Done
  rw [Bool.and_eq_true, beq_iff_eq, Bool.or_eq_true]
  refine and_congr_right fun _ => ?_
  show (!indexPointsExpected (docLevelOf st.docs x.docId) x.metadata.skipIndex) = true ∨
    Option.all (fun ls => ls.contains x.blockId) (st.labels.map fun ls => ls.map ContextualVecLabelRow.blockId) = true ↔ _
  rcases indexPointsExpected (docLevelOf st.docs x.docId) x.metadata.skipIndex
  · simp
  · rcases st.labels with - | ls <;> simp

/-- What is there is what no audit owes. -/
theorem present_iff_not_owed :
    Present st x tok ↔ ∀ configured, tok ∉ (AuditView.ofStore configured st).owedMembers x := by
  constructor
  · intro h configured hmem
    rcases mem_owedMembers.mp hmem with ⟨htok, -, hnone⟩ | ⟨htok, -, hnot⟩ | ⟨htok, -, hexp, hnot⟩
    · exact absurd (h.f03 htok) (by simp [hnone])
    · exact absurd ((f35Done_iff _).mpr (h.f35 htok)) (Bool.eq_false_iff.mp hnot)
    · exact hnot (h.f38 htok hexp)
  · intro h
    have hnot := h [tok]
    rw [mem_owedMembers] at hnot
    refine ⟨fun htok => ?_, fun htok => ?_, fun htok hexp => ?_⟩
    · by_contra hscore
      exact hnot (.inl ⟨htok, by simp [AuditView.ofStore, htok], by simpa using hscore⟩)
    · by_contra hdone
      rw [← f35Done_iff [tok]] at hdone
      exact hnot (.inr (.inl ⟨htok, by simp [AuditView.ofStore, htok], by simpa using hdone⟩))
    · by_contra hsource
      exact hnot (.inr (.inr ⟨htok, by simp [AuditView.ofStore, htok], hexp, hsource⟩))

/-- The row is not pending, or it owes what a view of the artifacts misses for its block. -/
def OwesMissing (v : AuditView) (st : UnitStore) (b : Nat) (r : EnrichStateRow) : Prop :=
  r.isPending = true → ∃ x ∈ st.blocks, x.blockId = b ∧ v.owedMembers x ≠ [] ∧ r.failedMembers = joinCsv (v.owedMembers x)

variable {r : EnrichStateRow} {st₁ : UnitStore}

theorem auditBlock_owesMissing {v : AuditView} (now : Int) {y : Block} (hy : y ∈ st.blocks)
    (hrow : rowOf b rows = some r) (howes : OwesMissing v st b r) :
    ∃ r', rowOf b (((auditBlock v now y).map (AuditWrite.apply now rows)).getD rows) = some r' ∧
      OwesMissing v st b r' := by
  have hid : r.blockId = b := (lookup_eq_some hrow).2
  rcases hw : auditBlock v now y with - | w
  · exact ⟨r, hrow, howes⟩
  · rcases w with blk | ⟨w, t⟩
    · show ∃ r', rowOf b (settleTerminalRow blk now rows) = some r' ∧ _
      unfold settleTerminalRow
      rw [rowOf_updateWhere (by intro _; rfl), hrow]
      refine ⟨_, rfl, ?_⟩
      dsimp only
      split
      · exact fun hp => absurd hp (by simp [EnrichStateRow.isPending, EnrichStateRow.settle])
      · exact howes
    · show ∃ r', rowOf b (reoweEnrichState w t rows) = some r' ∧ _
      rw [rowOf_reoweEnrichState w t hrow]
      refine ⟨_, rfl, ?_⟩
      obtain ⟨rfl, howed, -⟩ := auditBlock_eq_reowe hw
      split
      · rename_i hb
        rw [beq_iff_eq, hid] at hb
        exact fun _ => ⟨y, hy, hb.symm, howed, rfl⟩
      · exact howes

theorem audit_owesMissing (configured : List String) (now : Int) (st : UnitStore) (hrow : rowOf b rows = some r)
    (hok : r.isPending = false) : ∃ r', rowOf b (synthesizeEnrichAuditRows configured now st rows) = some r' ∧
      OwesMissing ((AuditView.ofStore configured st).track rows) st b r' := by
  unfold synthesizeEnrichAuditRows
  generalize (AuditView.ofStore configured st).track rows = v
  have hfold : ∀ (l : List Block) (rows : List EnrichStateRow) (r : EnrichStateRow), l ⊆ st.blocks →
      rowOf b rows = some r → OwesMissing v st b r →
      ∃ r', rowOf b (l.foldl (fun rows y => ((auditBlock v now y).map (AuditWrite.apply now rows)).getD rows) rows) =
        some r' ∧ OwesMissing v st b r' := by
    intro l
    induction l with
    | nil => exact fun rows r _ hrow howes => ⟨r, hrow, howes⟩
    | cons y l ih =>
      intro rows r hsub hrow howes
      obtain ⟨r', hrow', howes'⟩ := auditBlock_owesMissing now (hsub List.mem_cons_self) hrow howes
      exact ih _ r' (fun z hz => hsub (List.mem_cons_of_mem _ hz)) hrow' howes'
  exact hfold _ rows r (fun y hy => List.mem_of_mem_filter hy) hrow (fun hp => absurd hp (by simp [hok]))

theorem owedTokens_eq {toks : List String} (htoks : ∀ t ∈ toks, Token t) (hne : toks ≠ [])
    (h : r.failedMembers = joinCsv toks) : owedTokens r = toks := by
  have hsplit : splitCsv r.failedMembers = toks := by
    rw [h]
    exact splitCsv_joinCsv htoks
  unfold owedTokens
  split
  · rename_i hempty
    rw [String.isEmpty_iff.mp hempty] at hsplit
    exact absurd hsplit.symm hne
  · exact hsplit

theorem repaired_of_present {toks : List String} (hkeys : Keyed Block.blockId st.blocks) (hrow : rowOf b rows = some r)
    (hok : r.status = .ok) (h : ∀ x, blockOf b st.blocks = some x → ∀ tok ∈ toks, Present st x tok) :
    Repaired b toks st rows where
  present := h
  spared := by
    intro configured now r' hr' hp tok htok
    obtain ⟨r'', hrow'', howes⟩ := audit_owesMissing configured now st hrow
      (by simp [EnrichStateRow.isPending, hok])
    have heq : r'' = r' := Option.some.inj (hrow''.symm.trans hr')
    rw [heq] at howes
    obtain ⟨x, hx, hb, hne, hmembers⟩ := howes hp
    have hblock : blockOf b st.blocks = some x := hb ▸ hkeys.lookup_of_mem hx
    have htoks : ∀ t ∈ (AuditView.ofStore configured st).owedMembers x, Token t := by
      intro t ht
      rcases mem_owedMembers.mp ht with ⟨rfl, -⟩ | ⟨rfl, -⟩ | ⟨rfl, -⟩ <;> decide
    rw [owedTokens_eq htoks hne hmembers]
    exact present_iff_not_owed.mp (h x hblock tok htok) configured

/-! ## The works of a delivery -/

variable {env : Writer} {chain : EnricherChain} {now : Int} {w : Work} {p : Work × ChunkChainResult}

/-- The row and the block of a work are those of its chunk. -/
structure Situated (env : Writer) (st : UnitStore) (rows : List EnrichStateRow) (w : Work) : Prop where
  listed : w.row ∈ listEnrichStateForDoc env.docId rows
  classified : classify (docLevelOf st.docs env.docId) (childrenOf env.docId st.blocks) st.blocks w.row = some w
  block : blockOf w.row.blockId st.blocks = some w.block
  blockId : w.block.blockId = w.row.blockId
  docId : w.block.docId = env.docId
  childId : w.block.childId ≠ ""

theorem situated (hk : WellKeyed env.hashChildIdToBlockId st rows)
    (hw : w ∈ works (classifyAll env.docId st (listEnrichStateForDoc env.docId rows))) : Situated env st rows w := by
  obtain ⟨c, hc, hcw⟩ := mem_works.mp hw
  obtain ⟨row, hrow, rfl⟩ := List.mem_map.mp hc
  obtain ⟨hwrow, hblock, hchild, hne, -⟩ := classify_eq_some hcw
  obtain ⟨stored, hstored, -, rfl⟩ := mem_listEnrichStateForDoc.mp hrow
  have hid : w.block.blockId = w.row.blockId := by
    rw [hwrow, hk.blockIds w.block hblock (by rw [hchild]; exact hne), hchild]
    exact (hk.rowIds stored hstored hne).symm
  refine ⟨hwrow ▸ hrow, hwrow ▸ hcw, ?_, hid, classify_docId hcw, hchild ▸ hne⟩
  rw [← hid]
  exact hk.blockKeys.lookup_of_mem hblock

theorem pairsOk_delivery (hk : WellKeyed env.hashChildIdToBlockId st rows) :
    PairsOk (classifyAll env.docId st (listEnrichStateForDoc env.docId rows)) :=
  pairsOk_classifyAll (listEnrichStateForDoc_nodup hk.rowKeys _) _ _

theorem outcome_situated (hk : WellKeyed env.hashChildIdToBlockId st rows)
    (hp : p ∈ deliveryOutcomes env st chain rows) : Situated env st rows p.1 :=
  situated hk (mem_outcomesOf_work hp).1

/-- An owed member is asked of the chain, unless it is `f35` with a stored vector or the ingest gates it. -/
theorem owedTokens_cases (h : Situated env st rows w) {tok : String} (htok : tok ∈ owedTokens w.row) :
    tok ∈ w.members ∨ tok = "f35" ∧ w.stored.isSome = true ∨
      tok = "f38" ∧ hypeBlocksExpected (docLevelOf st.docs env.docId) = false := by
  obtain ⟨-, -, -, -, -, hstored, hmembers⟩ := classify_eq_some h.classified
  have howed : tok ∈ owedBy (docLevelOf st.docs env.docId) w.row ∨
      tok = "f38" ∧ hypeBlocksExpected (docLevelOf st.docs env.docId) = false := by
    unfold owedBy
    by_cases hexp : hypeBlocksExpected (docLevelOf st.docs env.docId) = true
    · rw [if_pos hexp]
      exact .inl htok
    · by_cases h38 : tok = "f38"
      · exact .inr ⟨h38, by simpa using hexp⟩
      · rw [if_neg hexp, List.mem_filter]
        exact .inl ⟨htok, by simpa using h38⟩
  rcases howed with howed | hgate
  · rw [hmembers]
    by_cases hsome : w.stored.isSome = true
    · rw [if_pos hsome]
      by_cases h35 : tok = "f35"
      · exact .inr (.inl ⟨h35, hsome⟩)
      · exact .inl ((List.mem_erase_of_ne h35).mpr howed)
    · rw [if_neg hsome]
      exact .inl howed
  · exact .inr (.inr hgate)

/-! ## The delivery -/

def chargedRows (env : Writer) (now : Int) (st : UnitStore) (rows : List EnrichStateRow) : List EnrichStateRow :=
  let classified := classifyAll env.docId st (listEnrichStateForDoc env.docId rows)
  chargeAll (labelOnlyIds classified) now kEnrichNoTerminal
    (chargeAll (providerIds classified) now (kMaxAttempts + 1) (settleAll now (works classified) rows))

def assembled (env : Writer) (chain : EnricherChain) (st : UnitStore) (rows : List EnrichStateRow) :
    List Repair × WriteSet :=
  assemble env st.labels (hypeBlocksExpected (docLevelOf st.docs env.docId)) (hypeSources st.blocks)
    ((deliveryOutcomes env st chain rows).map repairOf) {}

theorem processTask_eq_some (h : processTask env chain now st rows = some (st', rows'))
    (hne : listEnrichStateForDoc env.docId rows ≠ []) :
    ∃ st₁, insertBlocks (assembled env chain st rows).2.blocks st.blocks = some st₁.blocks ∧
      st₁.labels = st.labels ∧ st₁.docs = st.docs ∧ st' = (persistAll (assembled env chain st rows).1 st₁).2 ∧
      rows' = flipAll now (persistAll (assembled env chain st rows).1 st₁).1 (chargedRows env now st rows) := by
  unfold processTask at h
  dsimp only at h
  rw [repairsOf_eq] at h
  split at h
  · cases h
  · rw [if_neg (by simpa using hne)] at h
    obtain ⟨blocks, hblocks, heq⟩ := Option.map_eq_some_iff.mp h
    cases heq
    exact ⟨{ st with
      blocks
      points := st.points ++ (assembled env chain st rows).2.points }, hblocks, rfl, rfl, rfl, rfl⟩

theorem rowOf_chargedRows (now : Int) {row : EnrichStateRow}
    (hb : ∀ w ∈ works (classifyAll env.docId st (listEnrichStateForDoc env.docId rows)), w.isSettled = true →
      w.row.blockId ≠ b) (hrow : rowOf b rows = some row) (hpend : row.isPending = true) :
    ∃ y, rowOf b (chargedRows env now st rows) = some y ∧ y.generation = row.generation ∧ y.status ≠ .ok := by
  have hcharge : ∀ terminalAt (r : EnrichStateRow), r.generation = row.generation ∧ r.status ≠ .ok →
      (r.charge terminalAt now).generation = row.generation ∧ (r.charge terminalAt now).status ≠ .ok := by
    intro terminalAt r hr
    refine ⟨hr.1, ?_⟩
    unfold EnrichStateRow.charge
    dsimp only
    split
    · decide
    · exact hr.2
  have hstart : row.generation = row.generation ∧ row.status ≠ .ok := by
    refine ⟨rfl, fun hok => ?_⟩
    simp [EnrichStateRow.isPending, hok] at hpend
  unfold chargedRows chargeAll
  refine rowOf_chargeEnrichAttempts _ _ _ _ (hcharge _) (rowOf_chargeEnrichAttempts _ _ _ _ (hcharge _) ?_)
  rw [rowOf_settleAll now hb]
  exact ⟨row, hrow, hstart⟩

theorem assembled_spec (chain : EnricherChain) (hk : WellKeyed env.hashChildIdToBlockId st rows) :
    List.Forall₂ (Planned env st.labels (hypeBlocksExpected (docLevelOf st.docs env.docId)) (hypeSources st.blocks))
        (deliveryOutcomes env st chain rows) (assembled env chain st rows).1 ∧
      hypeSources (assembled env chain st rows).2.blocks = (deliveryOutcomes env st chain rows).flatMap
        (hypeAdded env (hypeBlocksExpected (docLevelOf st.docs env.docId)) (hypeSources st.blocks)) :=
  assemble_spec _ fun _ hp => classify_tokens (outcome_situated hk hp).classified

theorem deliveryOutcomes_nodup (hk : WellKeyed env.hashChildIdToBlockId st rows) :
    ((deliveryOutcomes env st chain rows).map fun p => p.1.row.blockId).Nodup :=
  outcomesOf_nodup (pairsOk_delivery hk) _ _ _

theorem outcome_eq (hk : WellKeyed env.hashChildIdToBlockId st rows) {p p' : Work × ChunkChainResult}
    (hp : p ∈ deliveryOutcomes env st chain rows) (hp' : p' ∈ deliveryOutcomes env st chain rows)
    (hid : p.1.row.blockId = p'.1.row.blockId) : p = p' :=
  List.inj_on_of_nodup_map (deliveryOutcomes_nodup hk) hp hp' hid

theorem assembled_nodup (hk : WellKeyed env.hashChildIdToBlockId st rows) :
    ((assembled env chain st rows).1.map fun r => r.block.blockId).Nodup := by
  have hmap : ((deliveryOutcomes env st chain rows).map fun p => p.1.block.blockId) =
      (assembled env chain st rows).1.map fun r => r.block.blockId :=
    forall₂_map_eq (assembled_spec chain hk).1 fun p r hr => by rw [hr.of.block]
  rw [← hmap, List.map_congr_left fun p hp => (outcome_situated hk hp).blockId]
  exact deliveryOutcomes_nodup hk

theorem mem_hypeAdded (hk : WellKeyed env.hashChildIdToBlockId st rows) (hp : p ∈ deliveryOutcomes env st chain rows)
    {hypeExpected : Bool} {existing : List String} :
    p.1.block.childId ∈ (deliveryOutcomes env st chain rows).flatMap (hypeAdded env hypeExpected existing) ↔
      hypeAdded env hypeExpected existing p ≠ [] := by
  have hsource : ∀ p' ∈ deliveryOutcomes env st chain rows, ∀ c ∈ hypeAdded env hypeExpected existing p',
      c = p'.1.block.childId := by
    intro p' hp' c hc
    unfold hypeAdded at hc
    split at hc
    · obtain ⟨q, hq, rfl⟩ := List.mem_map.mp hc
      exact outcome_source hp' q hq
    · exact absurd hc (by simp)
  rw [List.mem_flatMap]
  constructor
  · rintro ⟨p', hp', hc⟩ hnil
    -- the chunk that is named is that of the outcome
    have hchild := hsource p' hp' _ hc
    have hs := outcome_situated hk hp
    have hs' := outcome_situated hk hp'
    have hid : p.1.row.blockId = p'.1.row.blockId := by
      rw [← hs.blockId, ← hs'.blockId, hk.blockIds _ (lookup_eq_some hs.block).1 hs.childId,
        hk.blockIds _ (lookup_eq_some hs'.block).1 hs'.childId, hchild]
    rw [← outcome_eq hk hp hp' hid, hnil] at hc
    exact absurd hc (by simp)
  · intro hne
    obtain ⟨c, hc⟩ := List.exists_mem_of_ne_nil _ hne
    exact ⟨p, hp, hsource p hp c hc ▸ hc⟩

theorem labelStands_iff {added : List ContextualVecLabelRow}
    (hnew : ∀ l ∈ added, hasLabel st.labels l.label = false)
    (hlabels : st'.labels = st.labels.map fun ls => added.foldl (fun ls l => upsertLabel l ls) ls) :
    LabelStands st added b ↔ ∀ ls, st'.labels = some ls → ∃ l ∈ ls, l.blockId = b := by
  unfold LabelStands
  rw [hlabels]
  rcases hls : st.labels with - | ls
  · simp
  · have hold : ∀ l ∈ ls, ∀ l' ∈ added, l'.label ≠ l.label := by
      intro l hl l' hl' heq
      have hhas := hnew l' hl'
      rw [hls] at hhas
      unfold hasLabel at hhas
      rw [Option.any_some, List.any_eq_false] at hhas
      exact hhas l hl (by simp [heq])
    simp only [Option.map_some, Option.some.injEq, forall_eq']
    refine Iff.trans (or_congr_left ?_) (exists_foldl_upsertRow added ls).symm
    exact exists_congr fun l => and_congr_right fun hl => (and_iff_left (hold l hl)).symm

theorem labelAdded_missing {env : Writer} {labels : Option (List ContextualVecLabelRow)} {l : ContextualVecLabelRow}
    (h : labelAdded env labels p = some l) : hasLabel labels l.label = false := by
  unfold labelAdded at h
  split at h
  · rename_i hcond
    cases h
    simp only [labelMissing, Bool.and_eq_true, Bool.not_eq_true'] at hcond
    exact hcond.1.2
  · cases h

theorem labels_after (hk : WellKeyed env.hashChildIdToBlockId st rows) (hlabels : st₁.labels = st.labels) (b : Nat) :
    LabelStands st ((deliveryOutcomes env st chain rows).filterMap (labelAdded env st.labels)) b ↔
      ∀ ls, (persistAll (assembled env chain st rows).1 st₁).2.labels = some ls → ∃ l ∈ ls, l.blockId = b := by
  have hwritten : (assembled env chain st rows).1.filterMap Repair.writeLabel =
      (deliveryOutcomes env st chain rows).filterMap (labelAdded env st.labels) := by
    have hmap := forall₂_map_eq (f := labelAdded env st.labels) (g := Repair.writeLabel)
      (assembled_spec chain hk).1 fun p r hr => hr.label.symm
    have hid : ∀ {α : Type} (f : α → Option ContextualVecLabelRow) (l : List α),
        l.filterMap f = (l.map f).filterMap id := by
      intro α f l
      rw [List.filterMap_map]
      rfl
    rw [hid, ← hmap, ← hid]
  refine labelStands_iff ?_ ?_
  · intro l hl
    obtain ⟨p, -, hadded⟩ := List.mem_filterMap.mp hl
    exact labelAdded_missing hadded
  · rw [(persistAll_spec _ st₁).2.2.1, hlabels, hwritten]

theorem hypeAdded_ne_nil {hypeExpected : Bool} {existing : List String} (hexp : hypeExpected = true)
    (hmem : "f38" ∈ p.1.members) (hfailed : memberFailed p.2 "f38" = false)
    (hfails : hypeFails env hypeExpected existing p = false) (hold : p.1.block.childId ∉ existing) :
    hypeAdded env hypeExpected existing p ≠ [] ↔ p.2.hypeQuestions ≠ [] := by
  have hans : p.1.answered p.2 "f38" = true := by
    unfold Work.answered
    rw [hfailed, Bool.not_false, Bool.and_true]
    simpa using hmem
  unfold hypeAdded
  rw [hfails, Bool.not_false, Bool.and_true]
  unfold asksHype
  rw [hexp, hans]
  rcases hqs : p.2.hypeQuestions with - | ⟨q, qs⟩
  · simp
  · simpa using hold

theorem store_after (hk : WellKeyed env.hashChildIdToBlockId st rows) {r : Repair}
    (hblocks : insertBlocks (assembled env chain st rows).2.blocks st.blocks = some st₁.blocks)
    (hr : r ∈ (assembled env chain st rows).1) (hx : blockOf r.block.blockId st.blocks = some x) :
    ∃ x', blockOf r.block.blockId (persistAll (assembled env chain st rows).1 st₁).2.blocks = some x' ∧ Wrote r x x' := by
  refine persistAll_wrote (assembled_nodup hk) hr (keyed_insertBlocks hblocks hk.blockKeys) ?_
  rw [insertBlocks_eq_some hblocks]
  exact lookup_append_of_some hx _

/-- For an outcome that reports nothing, what is delivered is what is there afterwards. -/
theorem present_iff_delivered (hk : WellKeyed env.hashChildIdToBlockId st rows)
    (hblocks : insertBlocks (assembled env chain st rows).2.blocks st.blocks = some st₁.blocks)
    (hlabels : st₁.labels = st.labels) (hdocs : st₁.docs = st.docs)
    (hst : st' = (persistAll (assembled env chain st rows).1 st₁).2) (hp : p ∈ deliveryOutcomes env st chain rows)
    (hrep : reports env st p = false) :
    ∃ x', blockOf p.1.row.blockId st'.blocks = some x' ∧ ∀ tok ∈ owedTokens p.1.row,
      (Present st' x' tok ↔ Delivered env st (deliveryOutcomes env st chain rows) p tok) := by
  have hs := outcome_situated hk hp
  obtain ⟨hplanned, hhype⟩ := assembled_spec chain hk
  obtain ⟨r, hr, hplan⟩ := forall₂_exists hplanned hp
  obtain ⟨hsources, hdocs', hlabels', -⟩ := persistAll_spec (assembled env chain st rows).1 st₁
  rw [← hst] at hsources hdocs' hlabels'
  rw [hdocs] at hdocs'
  unfold reports at hrep
  simp only [Bool.or_eq_false_iff, Bool.and_eq_false_iff] at hrep
  obtain ⟨⟨⟨hmembers, hrefused⟩, hfails⟩, htable⟩ := hrep
  have hfailed : ∀ tok ∈ p.1.members, memberFailed p.2 tok = false := by simpa using hmembers
  have hstill : r.stillOwed = [] := hplan.still.mpr ⟨hfailed, hrefused, hfails⟩
  have howes : ∀ tok, r.owes tok = p.1.members.contains tok := by
    intro tok
    unfold Repair.owes
    rw [hstill, hplan.of.owed]
    simp
  have hb : r.block.blockId = p.1.row.blockId := by rw [hplan.of.block, hs.blockId]
  obtain ⟨x', hx', hw⟩ := store_after hk hblocks hr (by rw [hb]; exact hs.block)
  rw [hb, ← hst] at hx'
  refine ⟨x', hx', fun tok htok => ?_⟩
  have hasked := owedTokens_cases hs htok
  have hdoc : docLevelOf st'.docs x'.docId = docLevelOf st.docs env.docId := by rw [hdocs', hw.docId, hs.docId]
  have h03 : tok = "f03" → (x'.enrichedScore.isSome = true ↔
      p.1.block.enrichedScore.isSome = true ∨ p.2.merged.ok = true ∧ p.2.merged.enricherName ≠ "") := by
    rintro rfl
    have hmem : p.1.members.contains "f03" = true := by simpa using hasked
    rw [hw.score, howes, hmem, hplan.of.merged]
    simp
  have h35 : tok = "f35" → ((x'.contextualizedStatus = 1 ∧
      (indexPointsExpected (docLevelOf st'.docs x'.docId) x'.metadata.skipIndex → ∀ ls, st'.labels = some ls →
        ∃ l ∈ ls, l.blockId = x'.blockId)) ↔
      (if p.1.members.contains "f35" && f35Ran p.2.merged then p.2.merged.contextualizedStatus
        else p.1.block.contextualizedStatus) = 1 ∧
      (p.1.labelExpected = true →
        LabelStands st ((deliveryOutcomes env st chain rows).filterMap (labelAdded env st.labels)) p.1.block.blockId)) := by
    intro _
    obtain ⟨-, -, -, -, hexp, -⟩ := classify_eq_some hs.classified
    rw [hw.status, howes, hplan.of.merged, hdoc, hw.skipIndex, ← hexp, hst, labels_after hk hlabels, hw.blockId]
  have h38 : tok = "f38" → ((hypeBlocksExpected (docLevelOf st'.docs x'.docId) = true →
      x'.childId ∈ hypeSources st'.blocks) ↔
      (hypeBlocksExpected (docLevelOf st.docs env.docId) = true →
        p.1.block.childId ∈ hypeSources st.blocks ∨ p.2.hypeQuestions ≠ [])) := by
    rintro rfl
    rw [hdoc, hw.childId, hsources, insertBlocks_eq_some hblocks, hypeSources_append, hhype, List.mem_append,
      mem_hypeAdded hk hp]
    refine forall_congr' fun hexp => or_congr_right' fun hold => ?_
    have hmem : "f38" ∈ p.1.members := by simpa [hexp] using hasked
    exact hypeAdded_ne_nil hexp hmem (hfailed _ hmem) hfails hold
  exact ⟨fun h => ⟨fun ht => (h03 ht).mp (h.f03 ht), fun ht => (h35 ht).mp (h.f35 ht), fun ht => (h38 ht).mp (h.f38 ht)⟩,
    fun h => ⟨fun ht => (h03 ht).mpr (h.f03 ht), fun ht => (h35 ht).mpr (h.f35 ht), fun ht => (h38 ht).mpr (h.f38 ht)⟩⟩

/-- The row of an outcome after the delivery: it reads `ok` when its generation has survived the read and the outcome
reports nothing. -/
theorem row_after (hk : WellKeyed env.hashChildIdToBlockId st rows) {row : EnrichStateRow}
    (hlabels : st₁.labels = st.labels)
    (hrows : rows' = flipAll now (persistAll (assembled env chain st rows).1 st₁).1 (chargedRows env now st rows))
    (hlisted : row ∈ rows) (hpend : row.isPending = true) (hp : p ∈ deliveryOutcomes env st chain rows)
    (hread : p.1.row = rowFromStmt row) :
    ∃ r', rowOf row.blockId rows' = some r' ∧
      (r'.status = .ok ↔ toInt row.generation = row.generation ∧ reports env st p = false) := by
  have hs := outcome_situated hk hp
  obtain ⟨hplanned, -⟩ := assembled_spec chain hk
  obtain ⟨-, -, -, hended⟩ := persistAll_spec (assembled env chain st rows).1 st₁
  obtain ⟨r, hr, hplan⟩ := forall₂_exists hplanned hp
  obtain ⟨f, hf, hend⟩ := forall₂_exists hended hr
  have hrow : f.row = rowFromStmt row := (hend.row.trans hplan.of.row).trans hread
  have hnodup : ((persistAll (assembled env chain st rows).1 st₁).1.map fun r => r.row.blockId).Nodup := by
    have hids : ((deliveryOutcomes env st chain rows).map fun p => p.1.row.blockId) =
        (assembled env chain st rows).1.map fun r => r.row.blockId :=
      forall₂_map_eq hplanned fun p r hr => by rw [hr.of.row]
    rw [← forall₂_map_eq (f := fun r => r.row.blockId) hended fun r f hf => by rw [hf.row], ← hids]
    exact deliveryOutcomes_nodup hk
  -- the row is no settled one, so the charges are all that has come to it
  have hsettled : ∀ w ∈ works (classifyAll env.docId st (listEnrichStateForDoc env.docId rows)), w.isSettled = true →
      w.row.blockId ≠ row.blockId := by
    intro w hw hset hb
    obtain ⟨hpw, hkind⟩ := mem_outcomesOf_work hp
    have hid : w.row.blockId = p.1.row.blockId := by rw [hread]; exact hb
    rw [(pairsOk_delivery hk).work_eq hw hpw hid, isSettled_eq_false.mpr hkind] at hset
    exact absurd hset (by decide)
  obtain ⟨y, hy, hgen, hnot⟩ := rowOf_chargedRows now hsettled (hk.rowKeys.lookup_of_mem hlisted) hpend
  by_cases hfits : toInt row.generation = row.generation
  · have hflip := rowOf_flipAll now hnodup hf (y := y) (by rw [hrow]; exact hy) (by rw [hrow, hgen]; exact hfits.symm)
    rw [hrow, ← hrows] at hflip
    refine ⟨_, hflip, ?_⟩
    rw [and_iff_right hfits]
    show (flipRow now f).status = .ok ↔ _
    rw [flipRow_ok, hend.still, hplan.still, hplan.label, hlabels]
    unfold reports
    simp only [Bool.or_eq_false_iff, Bool.and_eq_false_iff, List.any_eq_false, Bool.not_eq_true, and_assoc]
    refine and_congr_right fun _ => and_congr_right fun _ => and_congr_right fun _ => ?_
    rcases labelAdded env st.labels p <;> rcases st.labels <;> simp
  · -- no flip finds the row, and the charges have not made it `ok`
    have hstale : rowOf row.blockId rows' = some y := by
      rw [hrows, rowOf_flipAll_stale now fun f' hf' hid y' hy' => ?_, hy]
      rw [List.inj_on_of_nodup_map hnodup hf' hf (hid.trans (by rw [hrow]; rfl)), hrow]
      rw [← Option.some.inj (hy.symm.trans hy'), hgen]
      exact Ne.symm hfits
    exact ⟨y, hstale, iff_of_false hnot fun h => hfits h.1⟩

theorem untouched (chain : EnricherChain) (st₁ : UnitStore) (hk : WellKeyed env.hashChildIdToBlockId st rows)
    (hb : ∀ p ∈ deliveryOutcomes env st chain rows, p.1.row.blockId ≠ b) :
    (∀ r ∈ (assembled env chain st rows).1, r.block.blockId ≠ b) ∧
      ∀ f ∈ (persistAll (assembled env chain st rows).1 st₁).1, f.row.blockId ≠ b := by
  obtain ⟨hplanned, -⟩ := assembled_spec chain hk
  obtain ⟨-, -, -, hended⟩ := persistAll_spec (assembled env chain st rows).1 st₁
  have hrepairs : ∀ r ∈ (assembled env chain st rows).1, r.block.blockId ≠ b ∧ r.row.blockId ≠ b := by
    intro r hr
    obtain ⟨p, hp, hplan⟩ := forall₂_exists hplanned.flip hr
    rw [hplan.of.block, hplan.of.row, (outcome_situated hk hp).blockId]
    exact ⟨hb p hp, hb p hp⟩
  refine ⟨fun r hr => (hrepairs r hr).1, fun f hf => ?_⟩
  obtain ⟨r, hr, hend⟩ := forall₂_exists hended.flip hf
  rw [hend.row]
  exact (hrepairs r hr).2

theorem settled_present (hk : WellKeyed env.hashChildIdToBlockId st rows)
    (hblocks : insertBlocks (assembled env chain st rows).2.blocks st.blocks = some st₁.blocks)
    (hdocs : st₁.docs = st.docs) (hst : st' = (persistAll (assembled env chain st rows).1 st₁).2)
    (hw : w ∈ works (classifyAll env.docId st (listEnrichStateForDoc env.docId rows))) (hset : w.isSettled = true)
    (hx : blockOf w.row.blockId st'.blocks = some x) : ∀ tok ∈ owedTokens w.row, Present st' x tok := by
  have hs := situated hk hw
  have hother : ∀ p ∈ deliveryOutcomes env st chain rows, p.1.row.blockId ≠ w.row.blockId := by
    intro p hp hid
    obtain ⟨hpw, hkind⟩ := mem_outcomesOf_work hp
    rw [(pairsOk_delivery hk).work_eq hw hpw hid.symm, isSettled_eq_false.mpr hkind] at hset
    exact absurd hset (by decide)
  have hsame : x = w.block := by
    rw [hst, persistAll_other (untouched chain st₁ hk hother).1, insertBlocks_eq_some hblocks] at hx
    exact Option.some.inj (hx.symm.trans (lookup_append_of_some hs.block _))
  obtain ⟨-, hdocs', -, -⟩ := persistAll_spec (assembled env chain st rows).1 st₁
  rw [← hst, hdocs] at hdocs'
  obtain ⟨-, -, -, -, hexp, hstored, -⟩ := classify_eq_some hs.classified
  simp only [Work.isSettled, Work.isProvider, Work.isLabelOnly, Bool.and_eq_true, Bool.not_eq_true',
    Bool.not_eq_false', List.isEmpty_iff] at hset
  obtain ⟨hnil, hlabel⟩ := hset
  rw [hsame]
  intro tok htok
  rcases owedTokens_cases hs htok with hmem | ⟨rfl, hsome⟩ | ⟨rfl, hgate⟩
  · exact absurd hmem (by simp [hnil])
  · have hno : w.labelExpected = false := by simpa [hnil, hsome] using hlabel
    have hvec : w.block.vector.isSome = true := by
      rw [hstored] at hsome
      split at hsome
      · unfold storedVector at hsome
        rwa [hs.block] at hsome
      · exact absurd hsome (by simp)
    refine ⟨fun h => absurd h (by decide), fun _ => ⟨?_, fun he => ?_⟩, fun h => absurd h (by decide)⟩
    · unfold Block.vector at hvec
      split at hvec
      · assumption
      · exact absurd hvec (by simp)
    · rw [hdocs', hs.docId, ← hexp, hno] at he
      exact absurd he (by decide)
  · refine ⟨fun h => absurd h (by decide), fun h => absurd h (by decide), fun _ he => ?_⟩
    rw [hdocs', hs.docId, hgate] at he
    exact absurd he (by decide)

/-- The row of a chunk that is gone stays away from `ok`. -/
theorem gone_not_ok (hk : WellKeyed env.hashChildIdToBlockId st rows) {row r' : EnrichStateRow}
    (hrows : rows' = flipAll now (persistAll (assembled env chain st rows).1 st₁).1 (chargedRows env now st rows))
    (hin : row ∈ rows) (hpend : row.isPending = true)
    (hgone : classify (docLevelOf st.docs env.docId) (childrenOf env.docId st.blocks) st.blocks (rowFromStmt row) = none)
    (hr' : rowOf row.blockId rows' = some r') : r'.status ≠ .ok := by
  have hnone : ∀ w ∈ works (classifyAll env.docId st (listEnrichStateForDoc env.docId rows)),
      w.row.blockId ≠ row.blockId := by
    intro w hw hid
    have hs := situated hk hw
    obtain ⟨stored, hstored, -, hread⟩ := mem_listEnrichStateForDoc.mp hs.listed
    have hsid : stored.blockId = row.blockId := by
      rwa [← hread] at hid
    rw [← hk.rowKeys.eq_of_key hstored hin hsid, hread, hs.classified] at hgone
    cases hgone
  obtain ⟨y, hy, -, hnot⟩ := rowOf_chargedRows now (fun w hw _ => hnone w hw) (hk.rowKeys.lookup_of_mem hin) hpend
  have hflips := (untouched chain st₁ hk fun p hp => hnone p.1 (mem_outcomesOf_work hp).1).2
  rw [hrows, rowOf_flipAll_other now hflips, hy] at hr'
  exact Option.some.inj hr' ▸ hnot

/-- A row that a delivery leaves at `ok` is repaired exactly when its generation is lost in the read, so that no delivery
flips it, or the chain reports what it does not deliver for it. -/
theorem repaired_iff_honest (env : Writer) (chain : EnricherChain) (now : Int) (st st' : UnitStore)
    (rows rows' : List EnrichStateRow) (row : EnrichStateRow) (hk : WellKeyed env.hashChildIdToBlockId st rows)
    (hrow : row ∈ rows) (hdoc : row.docId = env.docId) (hpend : row.isPending = true)
    (h : processTask env chain now st rows = some (st', rows')) :
    (∀ r', rowOf row.blockId rows' = some r' → r'.status = .ok →
        Repaired row.blockId (owedTokens row) st' rows') ↔
      (toInt row.generation = row.generation → Honest env st chain rows (rowFromStmt row)) := by
  have hlisted : rowFromStmt row ∈ listEnrichStateForDoc env.docId rows :=
    mem_listEnrichStateForDoc.mpr ⟨row, hrow, ⟨hdoc, hpend⟩, rfl⟩
  obtain ⟨st₁, hblocks, hlabels, hdocs, hst, hrows⟩ := processTask_eq_some h (List.ne_nil_of_mem hlisted)
  have hkeys : Keyed Block.blockId st'.blocks := by
    rw [hst]
    exact keyed_persistAll _ (keyed_insertBlocks hblocks hk.blockKeys)
  constructor
  · intro hrepaired hfits p hp hprow
    by_cases hrep : reports env st p = true
    · exact .inl hrep
    · rw [Bool.not_eq_true] at hrep
      obtain ⟨r', hr', hok⟩ := row_after hk hlabels hrows hrow hpend hp hprow
      obtain ⟨x', hx', hiff⟩ := present_iff_delivered hk hblocks hlabels hdocs hst hp hrep
      rw [hprow] at hx' hiff
      have hpresent := (hrepaired r' hr' (hok.mpr ⟨hfits, hrep⟩)).present x' hx'
      exact .inr fun tok htok => (hiff tok htok).mp (hpresent tok htok)
  · intro hhonest r' hr' hok
    refine repaired_of_present hkeys hr' hok fun x hx => ?_
    rcases hw : classify (docLevelOf st.docs env.docId) (childrenOf env.docId st.blocks) st.blocks (rowFromStmt row)
      with - | w
    · exact absurd hok (gone_not_ok hk hrows hrow hpend hw hr')
    · have hwrow : w.row = rowFromStmt row := (classify_eq_some hw).1
      have hmem : w ∈ works (classifyAll env.docId st (listEnrichStateForDoc env.docId rows)) :=
        mem_works.mpr ⟨(rowFromStmt row, some w), List.mem_map.mpr ⟨rowFromStmt row, hlisted, by rw [hw]⟩, rfl⟩
      have hid : w.row.blockId = row.blockId := by rw [hwrow]; rfl
      have howed : owedTokens w.row = owedTokens row := by rw [hwrow]; rfl
      rw [← hid] at hx
      rw [← howed]
      by_cases hset : w.isSettled = true
      · exact settled_present hk hblocks hdocs hst hmem hset hx
      · -- the delivery has an outcome for the row, and it reports nothing
        obtain ⟨res, hp⟩ := exists_outcome chain env.docId st hmem (isSettled_eq_false.mp (by simpa using hset))
        obtain ⟨r'', hr'', hok'⟩ := row_after hk hlabels hrows hrow hpend hp hwrow
        rw [Option.some.inj (hr''.symm.trans hr')] at hok'
        obtain ⟨hfits, hrep⟩ := hok'.mp hok
        obtain ⟨x', hx', hiff⟩ := present_iff_delivered hk hblocks hlabels hdocs hst hp hrep
        rw [Option.some.inj (hx.symm.trans hx')]
        rcases hhonest hfits (w, res) hp hwrow with htold | hall
        · exact absurd htold (by simp [hrep])
        · rw [← hwrow] at hall
          exact fun tok htok => (hiff tok htok).mpr (hall tok htok)

/-! ## Behind a head that is not available -/

def unscoredBlock : Block where
  blockId := 7
  docId := "doc"
  childId := "c7"
  parentId := ""
  chunkIndex := 0
  blockType := 1
  contentText := "text"
  metadata := {}
  enrichedScore := none
  contextualizedText := none
  contextualizedEmbedding := none
  contextualizedStatus := 0

def unscoredStore : UnitStore where
  blocks := [unscoredBlock]
  labels := some []
  docs := [("doc", 3)]
  parents := []
  points := []

def unscoredRow : EnrichStateRow := ⟨7, "doc", "c7", .pendingRetry, "f03", 0, [], some 100, 100, 0⟩

def oneChunkWriter : Writer where
  docId := "doc"
  hashChildIdToBlockId childId := if childId = "c7" then 7 else 0
  indexDim := 1
  embed _ := .ok [0]
  generateUlid n := toString n

def questions : Enricher := .hype { questionsPerChunk := 1, llmClient := some fun _ _ _ => .ok "Why?" }

/-- The head has fallen back to the one that does nothing, and the chain still has a member. -/
def headlessChain : EnricherChain := ⟨[.head nullEnricher, questions], by decide⟩

def scoringHead : HeadEnricher where
  name := "LlmEnricher"
  isAvailable := true
  enrichBatch ctxs := .ok (ctxs.map fun _ => ⟨0, "summary", 1, "", "", "LlmEnricher"⟩)

def scoringChain : EnricherChain := ⟨[.head scoringHead, questions], by decide⟩

theorem unscored_wellKeyed : WellKeyed oneChunkWriter.hashChildIdToBlockId unscoredStore [unscoredRow] := by
  refine ⟨?_, ?_, ?_, ?_⟩ <;> decide

/-- The delivery flips the row to `ok` without a score, and the next audit owes it again. -/
theorem unscored_not_repaired : ∃ st' rows' r' r'',
    processTask oneChunkWriter headlessChain 100 unscoredStore [unscoredRow] = some (st', rows') ∧
      rowOf 7 rows' = some r' ∧ r'.status = .ok ∧ ¬ Repaired 7 (owedTokens unscoredRow) st' rows' ∧
      rowOf 7 (synthesizeEnrichAuditRows ["f03", "f38"] 200 st' rows') = some r'' ∧ r''.isPending = true ∧
      "f03" ∈ owedTokens r'' := by
  refine ⟨_, _, _, _, rfl, rfl, rfl, ?_, rfl, rfl, by decide⟩
  intro h
  have hscore := (h.present _ rfl "f03" (by decide)).f03 rfl
  exact absurd hscore (by decide)

theorem scored_honest : Honest oneChunkWriter unscoredStore scoringChain [unscoredRow] (rowFromStmt unscoredRow) := by
  have hscored : ∀ p ∈ deliveryOutcomes oneChunkWriter unscoredStore scoringChain [unscoredRow],
      p.2.merged.ok = true ∧ p.2.merged.enricherName ≠ "" := by decide
  have howed : ∀ tok ∈ owedTokens (rowFromStmt unscoredRow), tok = "f03" := by decide
  intro p hp _
  refine .inr fun tok htok => ?_
  rw [howed tok htok]
  exact ⟨fun _ => .inr (hscored p hp), fun h => absurd h (by decide), fun h => absurd h (by decide)⟩

theorem repaired_iff_honest_scored : ∃ st' rows',
    processTask oneChunkWriter scoringChain 100 unscoredStore [unscoredRow] = some (st', rows') ∧
      ∀ r', rowOf 7 rows' = some r' → r'.status = .ok → Repaired 7 (owedTokens unscoredRow) st' rows' :=
  ⟨_, _, rfl, (repaired_iff_honest oneChunkWriter scoringChain 100 unscoredStore _ [unscoredRow] _ unscoredRow
    unscored_wellKeyed (by decide) rfl rfl rfl).mpr fun _ => scored_honest⟩

end Cortrix.Spc.BackfillWorker
