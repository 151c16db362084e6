import Cortrix.Spc.AuditFixpoint
import Cortrix.Spc.IngestLedger

/-!
# The ledger against the audit

The ledger of an ingest knows what the members of the chain reported, the audit knows what is stored. They agree on a
chunk exactly when the two come to the same: every configured member whose artifact is not delivered has reported a
failure, and where all are delivered none has. A member that is skipped, an empty contextual vector and a failure of the
hype member below the full level are three ways in which they part.

* `processParsed_spec` : the tables after an ingest; `present_iff_delivered`.
-/

namespace Cortrix.Spc.IngestLedger
open Lib BackfillWorker

/-! ## Outcomes and artifacts -/

section Conditions
variable (env : Writer) (chain : EnricherChain) (doc : ParsedDoc) (st : UnitStore)

/-- The members of the chain, as the audit is configured with them. -/
def configured : List String := chain.enrichers.map fun e => chainMemberToken e.name

/-- The embedder refuses a question of the document, and with it the batch of all questions. -/
def HypeRefused : Prop :=
  hypeBlocksExpected doc.level = true ∧
    ∃ s ∈ survivors chain doc, ∃ q ∈ s.2.hypeQuestions, ∃ msg, env.embed q.questionText = .error msg

/-- The ingest learns of a failure of the member for the chunk. -/
def Told (s : CleanBlock × ChunkChainResult) (tok : String) : Prop :=
  tok ∈ ["f03", "f35", "f38"] ∧ memberFailed s.2 tok = true ∨
    tok = "f38" ∧ s.2.hypeQuestions ≠ [] ∧ HypeRefused env chain doc

/-- A label row names the block, from before or as the last that the ingest writes under its label. -/
def LabelStands (b : Nat) : Prop :=
  ∀ ls, st.labels = some ls → (∃ l ∈ ls, l.blockId = b ∧ ∀ l' ∈ labelRows env chain doc, l'.label ≠ l.label) ∨
    ∃ l ∈ labelRows env chain doc, l.blockId = b ∧
      ((labelRows env chain doc).filter fun l' => l'.label == l.label).getLast? = some l

/-- The artifact of the member comes with the outcome, where the gates expect one. -/
structure Delivered (s : CleanBlock × ChunkChainResult) (tok : String) : Prop where
  f03 : tok = "f03" → s.2.merged.ok = true ∧ s.2.merged.enricherName ≠ ""
  f35 : tok = "f35" → s.2.merged.contextualizedStatus = 1 ∧ (indexPoints doc s.1 = true →
    LabelStands env chain doc st (env.hashChildIdToBlockId s.1.child.childId))
  f38 : tok = "f38" → hypeBlocksExpected doc.level = true → s.1.child.childId ∈ hypeSources st.blocks ∨
    s.2.hypeQuestions ≠ [] ∧ ¬ HypeRefused env chain doc

/-- What is not delivered is reported, and what is reported of a chunk with everything delivered is nothing. -/
def Honest (s : CleanBlock × ChunkChainResult) : Prop :=
  (∀ tok ∈ configured chain, ¬ Delivered env chain doc st s tok → Told env chain doc s tok) ∧
    ((∀ tok ∈ configured chain, Delivered env chain doc st s tok) → ∀ tok, ¬ Told env chain doc s tok)

end Conditions

/-- The row of a stored chunk says what the audit finds, and the audit leaves it. -/
structure Agrees (configured : List String) (st : UnitStore) (rows : List EnrichStateRow) (x : Block) : Prop where
  row : ∃ r, rowOf x.blockId rows = some r ∧ (r.status = .ok ↔ ¬ Lacks configured st x) ∧
    (Lacks configured st x → r.status = .pendingRetry ∧
      ∀ tok ∈ configured, ¬ Present st x tok → tok ∈ owedTokens r)
  unchanged : ∀ now, rowOf x.blockId (auditReport configured now st rows).rows = rowOf x.blockId rows

/-! ## The store loop -/

variable {env : Writer} {chain : EnricherChain} {order : MapOrder (CleanBlock × ChunkChainResult)} {now : Int}
  {doc : ParsedDoc} {st st' : UnitStore} {rows rows' : List EnrichStateRow} {s : CleanBlock × ChunkChainResult}

/-- The columns that the members of the chain give a block. -/
def withColumns (m : EnrichResult) (b : Block) : Block :=
  let b := if m.ok && !m.enricherName.isEmpty then { b with enrichedScore := some m.enrichedScore } else b
  if f35Ran m then
    { b with
      contextualizedText := m.contextualizedText
      contextualizedEmbedding := m.vector
      contextualizedStatus := m.contextualizedStatus }
  else b

/-- The block of a round as it stands after it. -/
def BlockWrite.stored (w : BlockWrite) : Block :=
  match w.enriched with
  | none => w.block
  | some (m, _) => withColumns m w.block

variable (m : EnrichResult) (b : Block)

theorem withColumns_blockId : (withColumns m b).blockId = b.blockId := by
  unfold withColumns
  split <;> split <;> rfl

theorem BlockWrite.stored_blockId (w : BlockWrite) : w.stored.blockId = w.block.blockId := by
  unfold stored
  split
  · rfl
  · exact withColumns_blockId _ _

theorem updateWhere_last {b : Block} {blocks : List Block} {f : Block → Block}
    (hnew : ∀ y ∈ blocks, y.blockId ≠ b.blockId) :
    updateWhere (fun y => y.blockId == b.blockId) f (blocks ++ [b]) = blocks ++ [f b] := by
  have hold : updateWhere (fun y => y.blockId == b.blockId) f blocks = blocks :=
    updateWhere_of_none fun y hy => beq_eq_false_iff_ne.mpr (hnew y hy)
  unfold updateWhere at hold ⊢
  rw [List.map_append, hold]
  simp

theorem writeColumns_eq {b : Block} {blocks : List Block} (hnew : ∀ y ∈ blocks, y.blockId ≠ b.blockId) :
    writeContextualized b.blockId m (writeEnrichment b.blockId m (blocks ++ [b])) = blocks ++ [withColumns m b] := by
  unfold writeContextualized writeEnrichment withColumns
  split
  · split
    · rw [updateWhere_last hnew]
      exact updateWhere_last (b := { b with enrichedScore := some m.enrichedScore }) hnew
    · exact updateWhere_last hnew
  · split
    · exact updateWhere_last hnew
    · rfl

theorem writeBlock_eq_some {s s' : UnitStore × List EnrichStateRow} {w : BlockWrite} (h : writeBlock s w = some s') :
    (∀ y ∈ s.1.blocks, y.blockId ≠ w.block.blockId) ∧
      s' = ({ s.1 with blocks := s.1.blocks ++ [w.stored] },
        (w.enriched.map Prod.snd).toList.foldl upsertEnrichState s.2) := by
  obtain ⟨blocks, hins, rfl⟩ := Option.map_eq_some_iff.mp h
  obtain ⟨hnew, rfl⟩ := insertRow_eq_some.mp hins
  refine ⟨hnew, ?_⟩
  unfold BlockWrite.stored
  rcases w.enriched with - | ⟨m, row⟩
  · rfl
  · dsimp only
    rw [writeColumns_eq m hnew]
    rfl

theorem foldlM_writeBlock {ws : List BlockWrite} {s s' : UnitStore × List EnrichStateRow}
    (hs : Keyed Block.blockId s.1.blocks) (h : ws.foldlM writeBlock s = some s') :
    s' = ({ s.1 with blocks := s.1.blocks ++ ws.map BlockWrite.stored },
      (ws.filterMap fun w => w.enriched.map Prod.snd).foldl upsertEnrichState s.2) ∧
    Keyed Block.blockId s'.1.blocks := by
  induction ws generalizing s with
  | nil =>
    cases h
    exact ⟨by simp, hs⟩
  | cons w ws ih =>
    rw [List.foldlM_cons] at h
    obtain ⟨s₁, h₁, h⟩ := Option.bind_eq_some_iff.mp h
    obtain ⟨hnew, rfl⟩ := writeBlock_eq_some h₁
    obtain ⟨rfl, hkeyed⟩ := ih (keyed_append.mpr ⟨hs, fun y hy => by
      rw [BlockWrite.stored_blockId]
      exact hnew y hy⟩) h
    refine ⟨?_, hkeyed⟩
    rw [List.filterMap_cons, List.map_cons]
    rcases w.enriched with - | ⟨m, row⟩
    · simp
    · simp

/-! ## The chunks and their results -/

theorem outcomes_keyed (chain : EnricherChain) (doc : ParsedDoc) :
    Keyed (fun o : ChildChunk × ChunkChainResult => o.1.childId) (outcomes chain doc) := by
  have hlen : doc.children.length = (chain.enrichChunks (contexts doc) (sources doc) none).length := by
    rw [EnricherChain.enrichChunks_length]
    exact List.length_mapIdx.symm
  have hmap : (outcomes chain doc).map (fun o => o.1.childId) = doc.children.map ChildChunk.childId := by
    rw [show (fun o : ChildChunk × ChunkChainResult => o.1.childId) = ChildChunk.childId ∘ Prod.fst from rfl,
      ← List.map_map]
    unfold outcomes
    rw [List.map_fst_zip (Nat.le_of_eq hlen)]
  unfold Keyed
  rw [hmap]
  exact doc.ids

theorem mem_survivors : s ∈ survivors chain doc ↔
    s.1 ∈ doc.clean ∧ outcomeOf chain doc s.1.child.childId = some (s.1.child, s.2) := by
  have hchild : ∀ b ∈ doc.clean, ∀ o, outcomeOf chain doc b.child.childId = some o → o.1 = b.child := by
    intro b hb o ho
    obtain ⟨hmem, hid⟩ := lookup_eq_some ho
    have hkeyed : Keyed ChildChunk.childId doc.children := doc.ids
    exact hkeyed.eq_of_key (List.of_mem_zip hmem).1 (doc.kept.mem (List.mem_map_of_mem hb)) hid
  unfold survivors
  rw [List.mem_filterMap]
  constructor
  · rintro ⟨b, hb, hs⟩
    obtain ⟨o, ho, rfl⟩ := Option.map_eq_some_iff.mp hs
    refine ⟨hb, ?_⟩
    rw [ho, ← hchild b hb o ho]
  · rintro ⟨hb, ho⟩
    refine ⟨s.1, hb, ?_⟩
    rw [ho]
    rfl

theorem survivors_fst (chain : EnricherChain) (doc : ParsedDoc) : (survivors chain doc).map Prod.fst = doc.clean := by
  have hlen : doc.children.length = (chain.enrichChunks (contexts doc) (sources doc) none).length := by
    rw [EnricherChain.enrichChunks_length]
    exact List.length_mapIdx.symm
  have hsome : ∀ b ∈ doc.clean, ∃ o, outcomeOf chain doc b.child.childId = some o := by
    intro b hb
    have hmem : b.child ∈ doc.children := doc.kept.mem (List.mem_map_of_mem hb)
    obtain ⟨i, hi, hget⟩ := List.getElem_of_mem hmem
    have hpair : (doc.children[i], (chain.enrichChunks (contexts doc) (sources doc) none)[i]) ∈ outcomes chain doc :=
      List.mem_iff_getElem.mpr ⟨i, by rw [outcomes, List.length_zip, ← hlen, Nat.min_self]; exact hi,
        List.getElem_zip⟩
    have hlookup := (outcomes_keyed chain doc).lookup_of_mem hpair
    rw [hget] at hlookup
    exact ⟨_, hlookup⟩
  unfold survivors
  generalize doc.clean = bs at hsome
  induction bs with
  | nil => rfl
  | cons b bs ih =>
    obtain ⟨o, ho⟩ := hsome b List.mem_cons_self
    rw [List.filterMap_cons, ho]
    show b :: _ = b :: bs
    rw [ih fun b' hb' => hsome b' (List.mem_cons_of_mem _ hb')]

theorem survivor_eq {s' : CleanBlock × ChunkChainResult} (hs : s ∈ survivors chain doc) (hs' : s' ∈ survivors chain doc)
    (hid : s.1.child.childId = s'.1.child.childId) : s.2 = s'.2 := by
  have h := (mem_survivors.mp hs).2
  rw [hid, (mem_survivors.mp hs').2] at h
  exact (congrArg Prod.snd (Option.some.inj h)).symm

theorem survivor_childId (hs : s ∈ survivors chain doc) : s.1.child.childId ≠ "" :=
  doc.named _ (doc.kept.mem (List.mem_map_of_mem (mem_survivors.mp hs).1))

theorem survivor_source (hs : s ∈ survivors chain doc) :
    ∀ q ∈ s.2.hypeQuestions, q.sourceChildId = s.1.child.childId := by
  intro q hq
  obtain ⟨hmem, -⟩ := lookup_eq_some (mem_survivors.mp hs).2
  unfold outcomes at hmem
  obtain ⟨i, hi, hget⟩ := List.getElem_of_mem hmem
  rw [List.getElem_zip] at hget
  injection hget with hchild hres
  rw [List.length_zip] at hi
  have hfrom : EnricherChain.HypeFrom (sources doc)
      ((chain.enrichChunks (contexts doc) (sources doc) none).map ChunkChainResult.hypeQuestions) :=
    chain.enrichChunks_hypeFrom
  rw [hfrom i s.2.hypeQuestions (by rw [List.getElem?_map, List.getElem?_eq_getElem (by omega), hres]; rfl) q hq]
  show ((doc.children.map ChildChunk.childId)[i]?).getD "" = _
  rw [List.getElem?_map, List.getElem?_eq_getElem (by omega), hchild]
  rfl

/-! ## The hype blocks -/

theorem mem_questions {q : HypeQuestion} :
    q ∈ questions chain doc order ↔ ∃ s ∈ survivors chain doc, q ∈ s.2.hypeQuestions := by
  unfold questions
  rw [List.mem_flatMap]
  refine exists_congr fun s => ?_
  rw [(order.perm _).mem_iff, List.mem_filter, and_assoc]
  refine and_congr_right fun _ => ?_
  constructor
  · exact And.right
  · intro hq
    refine ⟨?_, hq⟩
    simpa using List.ne_nil_of_mem hq

theorem embedBatch_error_iff {texts : List String} :
    (∃ msg, embedBatch env texts = .error msg) ↔ ∃ t ∈ texts, ∃ msg, env.embed t = .error msg := by
  unfold embedBatch
  induction texts with
  | nil =>
    constructor
    · rintro ⟨msg, h⟩
      cases h
    · rintro ⟨t, ht, -⟩
      cases ht
  | cons t texts ih =>
    rw [List.mapM_cons, List.exists_mem_cons_iff]
    rcases hv : env.embed t with msg | v
    · exact iff_of_true ⟨msg, rfl⟩ (.inl ⟨msg, rfl⟩)
    · rw [← ih]
      rcases hvs : texts.mapM env.embed with msg | vs
      · exact iff_of_true ⟨msg, rfl⟩ (.inr ⟨msg, rfl⟩)
      · constructor
        · rintro ⟨msg, h⟩
          cases h
        · rintro (⟨msg, h⟩ | ⟨msg, h⟩) <;> cases h

variable (order) in
theorem hypeRefused_iff : HypeRefused env chain doc ↔ ∃ msg, hypeEmbeddings env chain doc order = .error msg := by
  unfold HypeRefused hypeEmbeddings
  by_cases hexp : hypeBlocksExpected doc.level = true
  · rw [if_pos hexp, embedBatch_error_iff, and_iff_right hexp]
    constructor
    · rintro ⟨s, hs, q, hq, hmsg⟩
      exact ⟨_, List.mem_map_of_mem (mem_questions.mpr ⟨s, hs, hq⟩), hmsg⟩
    · rintro ⟨t, ht, hmsg⟩
      obtain ⟨q, hq, rfl⟩ := List.mem_map.mp ht
      obtain ⟨s, hs, hq⟩ := mem_questions.mp hq
      exact ⟨s, hs, q, hq, hmsg⟩
  · rw [if_neg hexp]
    constructor
    · exact fun h => absurd h.1 hexp
    · rintro ⟨msg, h⟩
      cases h

theorem mem_hypeSources_hypeWrites (hs : s ∈ survivors chain doc) :
    s.1.child.childId ∈ hypeSources ((hypeWrites env chain doc order).map Prod.fst) ↔
      hypeBlocksExpected doc.level = true ∧ s.2.hypeQuestions ≠ [] ∧ ¬ HypeRefused env chain doc := by
  rw [hypeRefused_iff order]
  unfold hypeWrites
  rcases hembs : hypeEmbeddings env chain doc order with msg | embs
  · simp [hypeSources]
  · have hnew : hypeSources ((((questions chain doc order).zip embs).mapIdx
        fun i q => (hypeBlock env q.1 (0 + i), q.2)).map Prod.fst) =
          ((questions chain doc order).zip embs).map fun q => q.1.sourceChildId := hypeSources_new 0 _
    simp only [Nat.zero_add] at hnew
    rw [hnew]
    unfold hypeEmbeddings at hembs
    by_cases hexp : hypeBlocksExpected doc.level = true
    · rw [if_pos hexp] at hembs
      have hlen := length_embedBatch hembs
      rw [List.length_map] at hlen
      have hzip : ((questions chain doc order).zip embs).map (fun q => q.1.sourceChildId) =
          (questions chain doc order).map HypeQuestion.sourceChildId := by
        rw [show (fun q : HypeQuestion × Embedding => q.1.sourceChildId) = HypeQuestion.sourceChildId ∘ Prod.fst from rfl,
          ← List.map_map, List.map_fst_zip (Nat.le_of_eq hlen.symm)]
      rw [hzip, List.mem_map]
      constructor
      · rintro ⟨q, hq, hsource⟩
        obtain ⟨s', hs', hq⟩ := mem_questions.mp hq
        have heq := survivor_eq hs hs' (hsource.symm.trans (survivor_source hs' q hq))
        refine ⟨hexp, ?_, by simp⟩
        rw [heq]
        exact List.ne_nil_of_mem hq
      · rintro ⟨-, hne, -⟩
        obtain ⟨q, hq⟩ := List.exists_mem_of_ne_nil _ hne
        exact ⟨q, mem_questions.mpr ⟨s, hs, hq⟩, survivor_source hs q hq⟩
    · rw [if_neg hexp] at hembs
      cases hembs
      simp [hexp]

/-! ## The rows -/

variable (order) in
theorem hypeDropped_isSome : (hypeDropped env chain doc order s).isSome = true ↔
    s.2.hypeQuestions ≠ [] ∧ HypeRefused env chain doc := by
  rw [hypeRefused_iff order]
  unfold hypeDropped
  rcases hypeEmbeddings env chain doc order with msg | embs
  · rcases s.2.hypeQuestions with - | ⟨q, qs⟩ <;> simp
  · simp

variable (order) in
theorem mem_owedMembers_iff {tok : String} : tok ∈ owedMembers env chain doc order s ↔ Told env chain doc s tok := by
  unfold owedMembers Told
  dsimp only
  rw [← List.mem_filter, ← hypeDropped_isSome order]
  generalize ["f03", "f35", "f38"].filter (memberFailed s.2) = failed
  by_cases hdropped : (hypeDropped env chain doc order s).isSome = true
  · by_cases h38 : "f38" ∈ failed
    · have hcontains : failed.contains "f38" = true := List.contains_iff_mem.mpr h38
      rw [hcontains, Bool.not_true, Bool.and_false, if_neg Bool.false_ne_true]
      constructor
      · exact .inl
      · rintro (h | ⟨rfl, -⟩)
        · exact h
        · exact h38
    · have hcontains : failed.contains "f38" = false := by
        rw [Bool.eq_false_iff, ne_eq, List.contains_iff_mem]
        exact h38
      rw [hcontains, hdropped]
      simp
  · simp [hdropped]

theorem owedMembers_token : ∀ tok ∈ owedMembers env chain doc order s, Token tok := by
  intro tok htok
  rcases (mem_owedMembers_iff order).mp htok with ⟨hmem, -⟩ | ⟨rfl, -⟩
  · have hall : ∀ t ∈ ["f03", "f35", "f38"], Token t := by decide
    exact hall tok hmem
  · decide

theorem upsert_writesOne : WritesOne EnrichStateRow.blockId upsertEnrichState EnrichStateRow.blockId
    (fun w row => some { w with
      nextRetryAt := bindRetryAt w.nextRetryAt
      generation := (row.map EnrichStateRow.generation).getD w.generation }) where
  own rows w := by
    unfold upsertEnrichState
    split
    · rename_i rows' hins
      obtain ⟨hnew, rfl⟩ := insertRow_eq_some.mp hins
      have hnone : lookup EnrichStateRow.blockId w.blockId rows = none := lookup_eq_none.mpr hnew
      rw [hnone]
      unfold lookup at hnone ⊢
      rw [List.find?_append, hnone, Option.none_or, List.find?_singleton]
      simp
    · rename_i hins
      obtain ⟨r, hr, hid⟩ := insertRow_eq_none.mp hins
      rw [lookup_updateWhere_of (by intro r hr; exact (beq_iff_eq.mp hr).symm)]
      rcases hrow : lookup EnrichStateRow.blockId w.blockId rows with - | r'
      · exact absurd hid (lookup_eq_none.mp hrow r hr)
      · simp [(lookup_eq_some hrow).2]
  other rows w b hne := by
    unfold upsertEnrichState
    split
    · rename_i rows' hins
      obtain ⟨hnew, rfl⟩ := insertRow_eq_some.mp hins
      unfold lookup
      have hother : (w.blockId == b) = false := beq_eq_false_iff_ne.mpr (Ne.symm hne)
      rw [List.find?_append, List.find?_singleton, hother]
      simp
    · rw [lookup_updateWhere_of (by intro r hr; exact (beq_iff_eq.mp hr).symm)]
      rcases hrow : lookup EnrichStateRow.blockId b rows with - | r
      · rfl
      · have hother : (r.blockId == w.blockId) = false := by
          rw [(lookup_eq_some hrow).2]
          exact beq_eq_false_iff_ne.mpr hne
        rw [Option.map_some, hother]
        rfl

/-! ## The tables after an ingest -/

theorem blockWrites_rows : (blockWrites env chain doc order now).filterMap (fun w => w.enriched.map Prod.snd) =
    (survivors chain doc).map (ledgerRow env chain doc order now) := by
  unfold blockWrites
  rw [List.filterMap_append, List.filterMap_append]
  have hplain : ∀ {α : Type} (f : α → Block) (xs : List α),
      (xs.map fun x => (⟨f x, none⟩ : BlockWrite)).filterMap (fun w => w.enriched.map Prod.snd) = [] := by
    intro α f xs
    induction xs with
    | nil => rfl
    | cons x xs ih =>
      rw [List.map_cons, List.filterMap_cons]
      exact ih
  rw [hplain, hplain, List.append_nil, List.append_nil, List.filterMap_map]
  exact congrFun List.filterMap_eq_map' _

/-- The tables after an ingest. -/
structure Ingested (env : Writer) (chain : EnricherChain) (order : MapOrder (CleanBlock × ChunkChainResult)) (now : Int)
    (doc : ParsedDoc) (st : UnitStore) (rows : List EnrichStateRow) (st' : UnitStore) (rows' : List EnrichStateRow) :
    Prop where
  blocks : st'.blocks = st.blocks ++ (blockWrites env chain doc order now).map BlockWrite.stored
  keyed : Keyed Block.blockId st'.blocks
  labels : writeContextualVecLabels (labelRows env chain doc) st.labels = some st'.labels
  docs : st'.docs = st.docs
  rows : rows' = ((survivors chain doc).map (ledgerRow env chain doc order now)).foldl upsertEnrichState rows

theorem processParsed_spec (hblocks : Keyed Block.blockId st.blocks)
    (h : processParsed env chain order now doc st rows = some (st', rows')) :
    Ingested env chain order now doc st rows st' rows' := by
  unfold processParsed at h
  split at h
  · cases h
  · obtain ⟨labels, hlabels, h⟩ := Option.bind_eq_some_iff.mp h
    obtain ⟨parents, -, h⟩ := Option.bind_eq_some_iff.mp h
    obtain ⟨heq, hkeyed⟩ := foldlM_writeBlock (by exact hblocks) h
    cases heq
    refine ⟨rfl, hkeyed, hlabels, rfl, ?_⟩
    rw [blockWrites_rows]

def storedBlock (env : Writer) (doc : ParsedDoc) (s : CleanBlock × ChunkChainResult) : Block :=
  withColumns s.2.merged (childBlock env doc s)

theorem withColumns_enrichedScore (hb : b.enrichedScore = none) :
    (withColumns m b).enrichedScore.isSome = true ↔ m.ok = true ∧ m.enricherName ≠ "" := by
  have hname : (m.ok && !m.enricherName.isEmpty) = true ↔ m.ok = true ∧ m.enricherName ≠ "" := by
    rw [Bool.and_eq_true, Bool.not_eq_true', Bool.eq_false_iff, ne_eq, String.isEmpty_iff]
  rw [← hname]
  unfold withColumns
  split <;> split <;> simp_all

theorem withColumns_status (hb : b.contextualizedStatus = 0) :
    (withColumns m b).contextualizedStatus = m.contextualizedStatus := by
  unfold withColumns
  dsimp only
  split
  · rfl
  · rename_i hran
    have hstatus : m.contextualizedStatus = 0 := by
      unfold f35Ran at hran
      simp only [Bool.or_eq_true, not_or, bne_iff_ne, ne_eq, not_not] at hran
      exact hran.1.1
    split <;> rw [hstatus] <;> exact hb

theorem withColumns_rest : (withColumns m b).docId = b.docId ∧
    (withColumns m b).childId = b.childId ∧ (withColumns m b).blockType = b.blockType ∧
      (withColumns m b).metadata = b.metadata := by
  unfold withColumns
  split <;> split <;> exact ⟨rfl, rfl, rfl, rfl⟩

namespace Ingested
variable (h : Ingested env chain order now doc st rows st' rows')
include h

theorem storedBlock_mem (hs : s ∈ survivors chain doc) : storedBlock env doc s ∈ st'.blocks := by
  rw [h.blocks, List.mem_append]
  refine .inr (List.mem_map.mpr ⟨childWrite env chain doc order now s, ?_, rfl⟩)
  unfold blockWrites
  rw [List.mem_append, List.mem_append]
  exact .inl (.inl (List.mem_map_of_mem hs))

theorem blockOf_child (hs : s ∈ survivors chain doc) :
    blockOf (env.hashChildIdToBlockId s.1.child.childId) st'.blocks = some (storedBlock env doc s) := by
  have hlookup := h.keyed.lookup_of_mem (h.storedBlock_mem hs)
  have hid : (storedBlock env doc s).blockId = env.hashChildIdToBlockId s.1.child.childId := withColumns_blockId _ _
  rwa [hid] at hlookup

theorem rowOf_child (hs : s ∈ survivors chain doc) : ∃ g at_,
    rowOf (env.hashChildIdToBlockId s.1.child.childId) rows' =
      some { ledgerRow env chain doc order now s with nextRetryAt := at_, generation := g } := by
  have hids : (((survivors chain doc).map (ledgerRow env chain doc order now)).map EnrichStateRow.blockId).Nodup := by
    have hkeyed : (st'.blocks.map Block.blockId).Nodup := h.keyed
    rw [h.blocks, List.map_append, List.nodup_append] at hkeyed
    have hsub : ((survivors chain doc).map (childWrite env chain doc order now)).Sublist
        (blockWrites env chain doc order now) := by
      unfold blockWrites
      rw [List.append_assoc]
      exact List.sublist_append_left _ _
    have heq : ((survivors chain doc).map (ledgerRow env chain doc order now)).map EnrichStateRow.blockId =
        (((survivors chain doc).map (childWrite env chain doc order now)).map BlockWrite.stored).map Block.blockId := by
      rw [List.map_map, List.map_map, List.map_map]
      exact List.map_congr_left fun s _ => (withColumns_blockId s.2.merged (childBlock env doc s)).symm
    rw [heq]
    exact hkeyed.2.1.sublist ((hsub.map _).map _)
  have hrow := upsert_writesOne.lookup_foldl_of_mem rows hids (List.mem_map_of_mem hs)
  rw [← h.rows] at hrow
  exact ⟨_, _, hrow⟩

theorem labelStands_iff (b : Nat) :
    LabelStands env chain doc st b ↔ ∀ ls, st'.labels = some ls → ∃ l ∈ ls, l.blockId = b := by
  have hlabels := h.labels
  unfold writeContextualVecLabels at hlabels
  unfold LabelStands
  rcases hls : st.labels with - | ls
  · rw [hls] at hlabels
    dsimp only at hlabels
    split at hlabels
    · rw [← Option.some.inj hlabels]
      simp
    · cases hlabels
  · rw [hls] at hlabels
    rw [← Option.some.inj hlabels]
    simp only [Option.some.injEq, forall_eq']
    exact (exists_foldl_upsertRow (labelRows env chain doc) ls).symm

theorem mem_hypeSources (c : String) : c ∈ hypeSources st'.blocks ↔
    c ∈ hypeSources st.blocks ∨ c ∈ hypeSources ((hypeWrites env chain doc order).map Prod.fst) := by
  have hnone : ∀ bs : List Block, (∀ b ∈ bs, b.blockType ≠ kBlockHypeQuestion) → hypeSources bs = [] :=
    fun bs hbs => List.filterMap_eq_nil_iff.mpr fun b hb => if_neg (hbs b hb)
  have hchildren : hypeSources (((survivors chain doc).map (childWrite env chain doc order now)).map
      BlockWrite.stored) = [] := by
    refine hnone _ fun b hb => ?_
    rw [List.map_map] at hb
    obtain ⟨s, -, rfl⟩ := List.mem_map.mp hb
    show (withColumns s.2.merged (childBlock env doc s)).blockType ≠ _
    rw [(withColumns_rest _ _).2.2.1]
    show doc.modality.blockType ≠ _
    rcases doc.modality <;> decide
  have hmeta : hypeSources ((doc.metaBlock.toList.map fun m => (⟨metadataBlock env m, none⟩ : BlockWrite)).map
      BlockWrite.stored) = [] := by
    refine hnone _ fun b hb => ?_
    rw [List.map_map] at hb
    obtain ⟨m, -, rfl⟩ := List.mem_map.mp hb
    show kBlockMeta ≠ kBlockHypeQuestion
    decide
  have hhype : ((hypeWrites env chain doc order).map fun p => (⟨p.1, none⟩ : BlockWrite)).map BlockWrite.stored =
      (hypeWrites env chain doc order).map Prod.fst := by
    rw [List.map_map]
    rfl
  rw [h.blocks, hypeSources_append, List.mem_append]
  unfold blockWrites
  rw [List.map_append, List.map_append, hypeSources_append, hypeSources_append, hchildren, hmeta, hhype,
    List.nil_append, List.append_nil]

/-- What is delivered is what is there afterwards. -/
theorem present_iff_delivered (hlevel : docLevelOf st.docs env.docId = doc.level) (hs : s ∈ survivors chain doc)
    (tok : String) : Present st' (storedBlock env doc s) tok ↔ Delivered env chain doc st s tok := by
  obtain ⟨hdocId, hchildId, -, hmetadata⟩ := withColumns_rest s.2.merged (childBlock env doc s)
  have hid : (storedBlock env doc s).blockId = env.hashChildIdToBlockId s.1.child.childId := withColumns_blockId _ _
  have hdoc : docLevelOf st'.docs (storedBlock env doc s).docId = doc.level := by
    unfold storedBlock
    rw [h.docs, hdocId]
    exact hlevel
  have hskip : (storedBlock env doc s).metadata.skipIndex = s.1.skipIndex := by
    unfold storedBlock
    rw [hmetadata]
    rfl
  have h03 : (storedBlock env doc s).enrichedScore.isSome = true ↔
      s.2.merged.ok = true ∧ s.2.merged.enricherName ≠ "" := withColumns_enrichedScore _ _ rfl
  have h35 : ((storedBlock env doc s).contextualizedStatus = 1 ∧
      (indexPointsExpected (docLevelOf st'.docs (storedBlock env doc s).docId)
        (storedBlock env doc s).metadata.skipIndex → ∀ ls, st'.labels = some ls →
          ∃ l ∈ ls, l.blockId = (storedBlock env doc s).blockId)) ↔
      s.2.merged.contextualizedStatus = 1 ∧ (indexPoints doc s.1 = true →
        LabelStands env chain doc st (env.hashChildIdToBlockId s.1.child.childId)) := by
    rw [hdoc, hskip, hid, ← h.labelStands_iff]
    unfold storedBlock indexPoints
    rw [withColumns_status _ _ rfl]
  have h38 : (hypeBlocksExpected (docLevelOf st'.docs (storedBlock env doc s).docId) = true →
      (storedBlock env doc s).childId ∈ hypeSources st'.blocks) ↔
      (hypeBlocksExpected doc.level = true → s.1.child.childId ∈ hypeSources st.blocks ∨
        s.2.hypeQuestions ≠ [] ∧ ¬ HypeRefused env chain doc) := by
    have hchild : (storedBlock env doc s).childId = s.1.child.childId := hchildId
    rw [hdoc, hchild, h.mem_hypeSources, mem_hypeSources_hypeWrites hs]
    exact forall_congr' fun hexp => or_congr_right (and_iff_right hexp)
  exact ⟨fun hp => ⟨fun ht => h03.mp (hp.f03 ht), fun ht => h35.mp (hp.f35 ht), fun ht => h38.mp (hp.f38 ht)⟩,
    fun hd => ⟨fun ht => h03.mpr (hd.f03 ht), fun ht => h35.mpr (hd.f35 ht), fun ht => h38.mpr (hd.f38 ht)⟩⟩

theorem keyed_rows (hrows : Keyed EnrichStateRow.blockId rows) : Keyed EnrichStateRow.blockId rows' := by
  rw [h.rows]
  generalize (survivors chain doc).map (ledgerRow env chain doc order now) = ws
  clear h
  induction ws generalizing rows with
  | nil => exact hrows
  | cons w ws ih =>
    refine ih ?_
    unfold upsertEnrichState
    split
    · rename_i rows'' hins
      exact hrows.insertRow hins
    · exact hrows.updateWhere_of fun r _ hr => (beq_iff_eq.mp hr).symm

theorem lacks_iff (configured : List String) (hlevel : docLevelOf st.docs env.docId = doc.level)
    (hs : s ∈ survivors chain doc) : Lacks configured st' (storedBlock env doc s) ↔
      ∃ tok ∈ configured, ¬ Delivered env chain doc st s tok :=
  exists_congr fun tok => and_congr_right fun _ => not_congr (h.present_iff_delivered hlevel hs tok)

theorem row_told (hs : s ∈ survivors chain doc) : ∃ r, rowOf (storedBlock env doc s).blockId rows' = some r ∧
    ((r.status = .ok ∧ ∀ tok, ¬ Told env chain doc s tok) ∨
      (r.status = .pendingRetry ∧ (∃ tok, Told env chain doc s tok) ∧
        ∀ tok, tok ∈ owedTokens r ↔ Told env chain doc s tok)) := by
  obtain ⟨g, at_, hrow⟩ := h.rowOf_child hs
  have hid : (storedBlock env doc s).blockId = env.hashChildIdToBlockId s.1.child.childId := withColumns_blockId _ _
  rw [hid]
  refine ⟨_, hrow, ?_⟩
  by_cases howed : owedMembers env chain doc order s = []
  · refine .inl ⟨if_pos (List.isEmpty_iff.mpr howed), fun tok htold => ?_⟩
    rw [← mem_owedMembers_iff order, howed] at htold
    cases htold
  · refine .inr ⟨if_neg (by rwa [List.isEmpty_iff]), ?_, fun tok => ?_⟩
    · obtain ⟨tok, htok⟩ := List.exists_mem_of_ne_nil _ howed
      exact ⟨tok, (mem_owedMembers_iff order).mp htok⟩
    · rw [owedTokens_eq owedMembers_token howed rfl]
      exact mem_owedMembers_iff order

theorem storedBlock_child (hs : s ∈ survivors chain doc) : storedBlock env doc s ∈ childBlocks st'.blocks := by
  refine mem_childBlocks.mpr ⟨h.storedBlock_mem hs, ?_⟩
  have hchildId : (storedBlock env doc s).childId = s.1.child.childId := (withColumns_rest _ _).2.1
  rw [hchildId]
  exact survivor_childId hs

/-- The ledger and the audit agree on a chunk exactly when the outcome of the chain is honest for it. -/
theorem agrees_iff (hrows : Keyed EnrichStateRow.blockId rows) (hlevel : docLevelOf st.docs env.docId = doc.level)
    (hs : s ∈ survivors chain doc) :
    Agrees (configured chain) st' rows' (storedBlock env doc s) ↔ Honest env chain doc st s := by
  have hlacks := h.lacks_iff (configured chain) hlevel hs
  have hpresent := h.present_iff_delivered hlevel hs
  obtain ⟨r, hr, htold⟩ := h.row_told hs
  constructor
  · rintro ⟨⟨r', hr', hok, hpending⟩, -⟩
    rw [hr] at hr'
    cases hr'
    constructor
    · intro tok hc hnot
      obtain ⟨hpend, howes⟩ := hpending (hlacks.mpr ⟨tok, hc, hnot⟩)
      rcases htold with ⟨hok', -⟩ | ⟨-, -, htold⟩
      · exact absurd (hok'.symm.trans hpend) (by decide)
      · rw [← htold]
        exact howes tok hc fun hp => hnot ((hpresent tok).mp hp)
    · intro hall
      have hnot : ¬ Lacks (configured chain) st' (storedBlock env doc s) := by
        rw [hlacks]
        rintro ⟨tok, hc, hnot⟩
        exact hnot (hall tok hc)
      rcases htold with ⟨-, hnone⟩ | ⟨hpend, -⟩
      · exact hnone
      · exact absurd ((hok.mpr hnot).symm.trans hpend) (by decide)
  · rintro ⟨hmissing, hquiet⟩
    have hkeyed := h.keyed_rows hrows
    have hchild := h.storedBlock_child hs
    rcases htold with ⟨hok, hnone⟩ | ⟨hpend, ⟨tok₀, htok₀⟩, howes⟩
    · have hnot : ¬ Lacks (configured chain) st' (storedBlock env doc s) := by
        rw [hlacks]
        rintro ⟨tok, hc, hnot⟩
        exact hnone tok (hmissing tok hc hnot)
      refine ⟨⟨r, hr, iff_of_true hok hnot, fun hl => absurd hl hnot⟩, fun now' => ?_⟩
      refine rowOf_auditReport_of_quiet _ now' hkeyed h.keyed hchild (.inl ⟨hnot, fun r' hr' => ?_⟩)
      rw [hr] at hr'
      rw [← Option.some.inj hr', hok]
      decide
    · have hl : Lacks (configured chain) st' (storedBlock env doc s) := by
        rw [hlacks]
        by_contra hnone
        exact hquiet (fun t ht => by_contra fun hnot => hnone ⟨t, ht, hnot⟩) tok₀ htok₀
      refine ⟨⟨r, hr, ?_, fun _ => ⟨hpend, fun tok hc hnot => ?_⟩⟩, fun now' => ?_⟩
      · rw [hpend]
        simp [hl]
      · rw [howes]
        exact hmissing tok hc fun hd => hnot ((hpresent tok).mpr hd)
      · exact rowOf_auditReport_of_quiet _ now' hkeyed h.keyed hchild (.inr ⟨hl, r, hr, .inl hpend⟩)

end Ingested

/-- After an ingest the ledger and the audit agree on every stored chunk exactly when every outcome is honest. -/
theorem ledger_agrees_iff (env : Writer) (chain : EnricherChain) (order : MapOrder (CleanBlock × ChunkChainResult))
    (now : Int) (doc : ParsedDoc) (st st' : UnitStore) (rows rows' : List EnrichStateRow)
    (hrows : Keyed EnrichStateRow.blockId rows) (hblocks : Keyed Block.blockId st.blocks)
    (hlevel : docLevelOf st.docs env.docId = doc.level)
    (h : processParsed env chain order now doc st rows = some (st', rows')) :
    (∀ b ∈ doc.clean, ∃ x, blockOf (env.hashChildIdToBlockId b.child.childId) st'.blocks = some x ∧
      Agrees (configured chain) st' rows' x) ↔ ∀ s ∈ survivors chain doc, Honest env chain doc st s := by
  have hi := processParsed_spec hblocks h
  constructor
  · intro hall s hs
    obtain ⟨x, hx, hagrees⟩ := hall s.1 (mem_survivors.mp hs).1
    rw [hi.blockOf_child hs] at hx
    cases hx
    exact (hi.agrees_iff hrows hlevel hs).mp hagrees
  · intro hall b hb
    rw [← survivors_fst chain doc] at hb
    obtain ⟨s, hs, rfl⟩ := List.mem_map.mp hb
    exact ⟨_, hi.blockOf_child hs, (hi.agrees_iff hrows hlevel hs).mpr (hall s hs)⟩

/-! ## A head that is skipped -/

def emptyStore : UnitStore where
  blocks := []
  labels := some []
  docs := [("doc", 3)]
  parents := []
  points := []

def listOrder (α : Type) : MapOrder α := ⟨id, List.Perm.refl⟩

def oneChunkDoc : ParsedDoc where
  level := 3
  modality := .file
  children := [⟨"c7", "p1", "text", 0⟩]
  parents := [("p1", "text")]
  clean := [⟨⟨"c7", "p1", "text", 0⟩, false, [1]⟩]
  metaBlock := none
  ids := by decide
  named := by decide
  kept := List.Sublist.refl _

/-- The row says `ok` without a score, and the audit that runs next owes it. -/
theorem skipped_head_disagrees : ∃ st' rows',
    processParsed oneChunkWriter headlessChain (listOrder _) 100 oneChunkDoc emptyStore [] = some (st', rows') ∧
      (∃ r, rowOf 7 rows' = some r ∧ r.status = .ok) ∧
      (auditReport (configured headlessChain) 200 st' rows').synthesized = 1 ∧
      ¬ ∀ b ∈ oneChunkDoc.clean, ∃ x,
        blockOf (oneChunkWriter.hashChildIdToBlockId b.child.childId) st'.blocks = some x ∧
          Agrees (configured headlessChain) st' rows' x := by
  refine ⟨_, _, rfl, ⟨_, rfl, rfl⟩, by decide, fun h => ?_⟩
  obtain ⟨x, hx, hagrees⟩ := h _ (List.mem_singleton_self _)
  cases hx
  exact absurd (hagrees.unchanged 200) (by decide)

theorem scored_survivors_honest :
    ∀ s ∈ survivors scoringChain oneChunkDoc, Honest oneChunkWriter scoringChain oneChunkDoc emptyStore s := by
  have hall : ∀ s ∈ survivors scoringChain oneChunkDoc, (s.2.merged.ok = true ∧ s.2.merged.enricherName ≠ "") ∧
      s.2.hypeQuestions ≠ [] ∧ ∀ tok ∈ ["f03", "f35", "f38"], memberFailed s.2 tok = false := by decide
  have hembed : ¬ HypeRefused oneChunkWriter scoringChain oneChunkDoc := by
    rintro ⟨-, s, -, q, -, msg, h⟩
    cases h
  intro s hs
  obtain ⟨hscore, hquestions, hfailed⟩ := hall s hs
  have htold : ∀ tok, ¬ Told oneChunkWriter scoringChain oneChunkDoc s tok := by
    rintro tok (⟨hmem, hf⟩ | ⟨-, -, hrefused⟩)
    · rw [hfailed tok hmem] at hf
      cases hf
    · exact hembed hrefused
  refine ⟨fun tok hc hnot => absurd ?_ hnot, fun _ => htold⟩
  have htok : ∀ t ∈ configured scoringChain, t ≠ "f35" := by decide
  exact ⟨fun _ => hscore, fun h => absurd h (htok tok hc), fun _ _ => .inr ⟨hquestions, hembed⟩⟩

theorem ledger_agrees_iff_scored : ∃ st' rows',
    processParsed oneChunkWriter scoringChain (listOrder _) 100 oneChunkDoc emptyStore [] = some (st', rows') ∧
      ∀ b ∈ oneChunkDoc.clean, ∃ x,
        blockOf (oneChunkWriter.hashChildIdToBlockId b.child.childId) st'.blocks = some x ∧
          Agrees (configured scoringChain) st' rows' x :=
  ⟨_, _, rfl, (ledger_agrees_iff oneChunkWriter scoringChain (listOrder _) 100 oneChunkDoc emptyStore _ [] _
    (by decide) (by decide) (by decide) rfl).mpr scored_survivors_honest⟩

end Cortrix.Spc.IngestLedger
