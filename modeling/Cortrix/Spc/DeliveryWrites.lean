import Cortrix.Spc.EnrichBackfillWorker

/-!
# What a delivery writes

The chain gives an outcome for every work that is repaired, and the write set and the statements after it are a function
of these outcomes, of the index and of the store as it was.

* `Wrote`, `Ended`, `persistAll_wrote`, `persistAll_spec` : the columns, the labels and the debts after the writes.
-/

namespace Cortrix.Spc.BackfillWorker
open Lib

/-! ## The members as text -/

/-- A member as it stands between the commas. -/
def Token (t : String) : Prop := t ≠ "" ∧ ',' ∉ t.toList

instance (t : String) : Decidable (Token t) := inferInstanceAs (Decidable (_ ∧ _))

theorem isEmpty_eq_false {s : String} (h : s ≠ "") : s.isEmpty = false := by
  rw [Bool.eq_false_iff]
  exact fun he => h (String.isEmpty_iff.mp he)

theorem intercalate_append_cons (sep a b : List Char) (ls : List (List Char)) :
    List.intercalate sep ((a ++ b) :: ls) = a ++ List.intercalate sep (b :: ls) := by
  rcases ls with - | ⟨l, ls⟩
  · simp
  · simp [List.intercalate_cons_cons]

theorem joinCsv_toList {toks : List String} (h : ∀ t ∈ toks, Token t) :
    (joinCsv toks).toList = List.intercalate [','] (toks.map String.toList) := by
  -- behind a text that is not empty, each member follows a comma
  have hfold : ∀ (toks : List String) (s : String), s ≠ "" →
      String.toList (toks.foldl (fun out t => (if out.isEmpty then out else out ++ ",") ++ t) s) =
        List.intercalate [','] (s.toList :: toks.map String.toList) := by
    intro toks
    induction toks with
    | nil => simp
    | cons t toks ih =>
      intro s hs
      rw [List.foldl_cons, isEmpty_eq_false hs, if_neg (by simp), ih _ (by simp [hs]), List.map_cons,
        List.intercalate_cons_cons, String.toList_append, intercalate_append_cons, String.toList_append]
      rfl
  rcases toks with - | ⟨t, toks⟩
  · rfl
  · have ht : t ≠ "" := (h t (by simp)).1
    have hfirst := hfold toks t ht
    unfold joinCsv
    rw [List.foldl_cons, List.map_cons, ← hfirst]
    simp

theorem splitCsv_joinCsv {toks : List String} (h : ∀ t ∈ toks, Token t) : splitCsv (joinCsv toks) = toks := by
  rcases htoks : toks with - | ⟨t, toks'⟩
  · decide
  · rw [← htoks]
    have hne : toks.map String.toList ≠ [] := by simp [htoks]
    have hsplit : (joinCsv toks).toList.splitOn ',' = toks.map String.toList := by
      rw [joinCsv_toList h]
      refine List.splitOn_intercalate ',' ?_ hne
      intro l hl
      obtain ⟨t, ht, rfl⟩ := List.mem_map.mp hl
      exact (h t ht).2
    unfold splitCsv
    rw [hsplit, List.filter_eq_self.mpr, List.map_map]
    · simp
    · intro l hl
      obtain ⟨t, ht, rfl⟩ := List.mem_map.mp hl
      simpa using (h t ht).1

theorem notMem_of_mem_splitOn {l xs : List Char} {c : Char} (h : l ∈ xs.splitOn c) : c ∉ l := by
  induction xs generalizing l with
  | nil => 
    rw [List.splitOn_nil, List.mem_singleton] at h
    simp [h]
  | cons x xs ih =>
    rw [List.splitOn_cons_eq_if_modifyHead] at h
    split at h
    · rcases List.mem_cons.mp h with rfl | hl
      · simp
      · exact ih hl
    · rename_i hx
      rcases hsplit : xs.splitOn c with - | ⟨l', ls⟩
      · exact absurd hsplit (List.splitOn_ne_nil c xs)
      · rw [hsplit] at h ih
        rcases List.mem_cons.mp h with rfl | hl
        · simp only [List.mem_cons, not_or]
          exact ⟨fun hc => hx (by simp [hc]), ih (by simp)⟩
        · exact ih (by simp [hl])

theorem token_of_mem_splitCsv {csv t : String} (h : t ∈ splitCsv csv) : Token t := by
  unfold splitCsv at h
  obtain ⟨l, hl, rfl⟩ := List.mem_map.mp h
  rw [List.mem_filter] at hl
  refine ⟨?_, ?_⟩
  · intro he
    have := congrArg String.toList he
    simp at this
    simp [this] at hl
  · rw [String.toList_ofList]
    exact notMem_of_mem_splitOn hl.1

/-! ## Outcomes -/

def chainOutcomes (chain : EnricherChain) (children : List Block) (parents : List (String × String)) (g : Bucket Work) :
    List (Work × ChunkChainResult) :=
  g.all.zip (chain.enrichChunks (g.all.map (contextOf children)) (sourcesOf parents g.all)
    (some (splitCsv (joinCsv g.first.members))))

/-- The works of a delivery that it repairs, each with its outcome; that of a label-only work is blank. -/
def outcomesOf (chain : EnricherChain) (docId : String) (st : UnitStore) (ws : List Work) :
    List (Work × ChunkChainResult) :=
  (groups ws).flatMap (chainOutcomes chain (childrenOf docId st.blocks) st.parents) ++
    (ws.filter Work.isLabelOnly).map fun w => (w, ({} : ChunkChainResult))

def repairOf (p : Work × ChunkChainResult) : Repair := chainRepair (joinCsv p.1.members) p.1 p.2

variable {chain : EnricherChain} {docId : String} {st : UnitStore} {ws : List Work} {w : Work} {res : ChunkChainResult}
  {g : Bucket Work}

theorem groups_key (hg : g ∈ groups ws) (hw : w ∈ g.all) : joinCsv w.members = joinCsv g.first.members := by
  unfold groups at hg
  rw [List.mem_insertionSort] at hg
  rcases List.mem_cons.mp hw with rfl | hrest
  · rfl
  · have hany : (ws.filter Work.isProvider).Pairwise fun _ _ => True := List.pairwise_of_forall fun _ _ => trivial
    exact Option.some.inj (Bucket.buckets_rest hany hg hrest).1

theorem chainOutcomes_repairs (hg : g ∈ groups ws) (children : List Block) (parents : List (String × String)) :
    callChain chain children parents g = (chainOutcomes chain children parents g).map repairOf := by
  unfold callChain chainOutcomes
  rw [← List.map_uncurry_zip_eq_zipWith]
  apply List.map_congr_left
  rintro ⟨w, res⟩ hmem
  show chainRepair _ w res = chainRepair _ w res
  rw [groups_key hg (List.of_mem_zip hmem).1]

theorem isLabelOnly_members (hl : w.isLabelOnly = true) : w.members = [] := by
  simp only [Work.isLabelOnly, Bool.and_eq_true] at hl
  exact List.isEmpty_iff.mp hl.1.1

theorem repairsOf_eq (chain : EnricherChain) (docId : String) (st : UnitStore) (ws : List Work) :
    repairsOf chain docId st ws = (outcomesOf chain docId st ws).map repairOf := by
  unfold repairsOf outcomesOf
  rw [List.map_append, List.map_flatMap, List.map_map]
  congr 1
  · exact List.flatMap_congr fun g hg => chainOutcomes_repairs hg _ _
  · apply List.map_congr_left
    intro w hw
    have hl : w.isLabelOnly = true := (List.mem_filter.mp hw).2
    have hsplit : splitCsv (joinCsv []) = [] := by decide
    have hstored : (w.stored.isSome && w.labelExpected) = true := by
      simp only [Work.isLabelOnly, Bool.and_eq_true] at hl
      simp [hl.1.2, hl.2]
    show labelOnlyRepair w = chainRepair (joinCsv w.members) w {}
    rw [isLabelOnly_members hl]
    unfold labelOnlyRepair chainRepair
    rw [hsplit, hstored, isLabelOnly_stored hl]
    rfl

theorem outcomesOf_perm (chain : EnricherChain) (docId : String) (st : UnitStore) (ws : List Work) :
    ((outcomesOf chain docId st ws).map Prod.fst).Perm (ws.filter Work.isProvider ++ ws.filter Work.isLabelOnly) := by
  have hfst : ∀ g, (chainOutcomes chain (childrenOf docId st.blocks) st.parents g).map Prod.fst = g.all := by
    intro g
    refine List.map_fst_zip ?_
    rw [EnricherChain.enrichChunks_length, List.length_map]
  unfold outcomesOf
  rw [List.map_append, List.map_flatMap, List.map_map]
  refine List.Perm.append ?_ ?_
  · rw [List.flatMap_congr fun g _ => hfst g]
    exact groups_perm ws
  · exact List.Perm.of_eq (List.map_id _)

theorem mem_outcomesOf_work (h : (w, res) ∈ outcomesOf chain docId st ws) :
    w ∈ ws ∧ (w.isProvider = true ∨ w.isLabelOnly = true) := by
  have hmem := (outcomesOf_perm chain docId st ws).subset (List.mem_map_of_mem h)
  rcases List.mem_append.mp hmem with hp | hl
  · obtain ⟨hw, hprov⟩ := List.mem_filter.mp hp
    exact ⟨hw, .inl hprov⟩
  · obtain ⟨hw, hlab⟩ := List.mem_filter.mp hl
    exact ⟨hw, .inr hlab⟩

theorem exists_outcome (chain : EnricherChain) (docId : String) (st : UnitStore) (hw : w ∈ ws)
    (hkind : w.isProvider = true ∨ w.isLabelOnly = true) : ∃ res, (w, res) ∈ outcomesOf chain docId st ws := by
  have hin : w ∈ ws.filter Work.isProvider ++ ws.filter Work.isLabelOnly := by
    rcases hkind with hp | hl
    · exact List.mem_append_left _ (List.mem_filter.mpr ⟨hw, hp⟩)
    · exact List.mem_append_right _ (List.mem_filter.mpr ⟨hw, hl⟩)
  obtain ⟨⟨w', res⟩, hmem, rfl⟩ := List.mem_map.mp ((outcomesOf_perm chain docId st ws).mem_iff.mpr hin)
  exact ⟨res, hmem⟩

theorem outcomesOf_nodup {cs : List (EnrichStateRow × Option Work)} (h : PairsOk cs) (chain : EnricherChain)
    (docId : String) (st : UnitStore) :
    ((outcomesOf chain docId st (works cs)).map fun p => p.1.row.blockId).Nodup := by
  have hperm := (outcomesOf_perm chain docId st (works cs)).map fun w => w.row.blockId
  rw [List.map_map] at hperm
  refine hperm.nodup_iff.mpr ?_
  rw [List.map_append, List.nodup_append]
  refine ⟨h.works_nodup.sublist (List.filter_sublist.map _), h.works_nodup.sublist (List.filter_sublist.map _), ?_⟩
  rintro b hp b' hl rfl
  obtain ⟨w, hw, rfl⟩ := List.mem_map.mp hp
  obtain ⟨w', hw', hb⟩ := List.mem_map.mp hl
  rw [List.mem_filter] at hw hw'
  have heq := h.work_eq hw'.1 hw.1 hb
  rw [heq] at hw'
  exact absurd hw.2 (by simp [isLabelOnly_not_provider hw'.2])

theorem outcome_source (h : (w, res) ∈ outcomesOf chain docId st ws) :
    ∀ q ∈ res.hypeQuestions, q.sourceChildId = w.block.childId := by
  intro q hq
  rcases List.mem_append.mp h with hchain | hlabel
  · obtain ⟨g, -, hmem⟩ := List.mem_flatMap.mp hchain
    unfold chainOutcomes at hmem
    obtain ⟨i, hi, hget⟩ := List.mem_iff_getElem.mp hmem
    rw [List.getElem_zip] at hget
    rw [List.length_zip] at hi
    obtain ⟨hw, hres⟩ := Prod.mk.injEq .. ▸ hget
    have hfrom : EnricherChain.HypeFrom (sourcesOf st.parents g.all)
        ((chain.enrichChunks (g.all.map (contextOf (childrenOf docId st.blocks))) (sourcesOf st.parents g.all)
          (some (splitCsv (joinCsv g.first.members)))).map ChunkChainResult.hypeQuestions) :=
      chain.enrichChunks_hypeFrom
    have hsource := hfrom i res.hypeQuestions
      (by rw [List.getElem?_map, List.getElem?_eq_getElem (by omega), hres]; rfl) q hq
    rw [hsource]
    show ((g.all.map fun w => w.block.childId)[i]?).getD "" = _
    rw [List.getElem?_map, List.getElem?_eq_getElem (by omega), hw]
    rfl
  · obtain ⟨w', -, heq⟩ := List.mem_map.mp hlabel
    cases heq
    exact absurd hq (by simp)

theorem classify_docId {docLevel : Int} {blocks : List Block} {row : EnrichStateRow}
    (h : classify docLevel (childrenOf docId blocks) blocks row = some w) : w.block.docId = docId := by
  obtain ⟨p, hfind, rfl⟩ := Option.map_eq_some_iff.mp h
  have hmem := List.mem_of_find?_eq_some hfind
  rw [List.mem_reverse] at hmem
  have hblock : p.1 ∈ childrenOf docId blocks := List.fst_mem_of_mem_zipIdx hmem
  unfold childrenOf at hblock
  rw [List.mem_insertionSort, List.mem_filter, Bool.and_eq_true, beq_iff_eq] at hblock
  exact hblock.2.1

theorem classify_tokens {docLevel : Int} {blocks : List Block} {row : EnrichStateRow}
    (h : classify docLevel (childrenOf docId blocks) blocks row = some w) : ∀ t ∈ w.members, Token t := by
  obtain ⟨-, -, -, -, -, -, hmembers⟩ := classify_eq_some h
  have howed : ∀ t ∈ owedBy docLevel row, Token t := by
    have hmembers : ∀ t ∈ (if row.failedMembers.isEmpty then ["f03", "f35", "f38"] else splitCsv row.failedMembers),
        Token t := by
      split
      · decide
      · exact fun t ht => token_of_mem_splitCsv ht
    unfold owedBy
    dsimp only
    intro t ht
    split at ht
    · exact hmembers t ht
    · exact hmembers t (List.mem_of_mem_filter ht)
  intro t ht
  rw [hmembers] at ht
  split at ht
  · exact howed t (List.mem_of_mem_erase ht)
  · exact howed t ht

/-! ## The assembly of an outcome -/

/-- The chain was asked for the member, and no step of it has failed. -/
def Work.answered (w : Work) (res : ChunkChainResult) (tok : String) : Bool :=
  w.members.contains tok && !memberFailed res tok

section Assembly

variable (env : Writer) (labels : Option (List ContextualVecLabelRow)) (hypeExpected : Bool) (existing : List String)

/-- The ingest would have indexed the chunk, and its label is not there. -/
def labelMissing (w : Work) : Bool :=
  w.labelExpected && !hasLabel labels (env.deriveContextualVecLabel w.block.childId)

/-- The index cannot take the stored vector. -/
def refused (w : Work) : Bool :=
  w.stored.isSome && labelMissing env labels w &&
    decide (0 < env.indexDim ∧ (w.stored.getD []).length ≠ env.indexDim)

/-- The label row of the point that is added for an outcome. -/
def labelAdded (p : Work × ChunkChainResult) : Option ContextualVecLabelRow :=
  if labelMissing env labels p.1 &&
      (p.1.answered p.2 "f35" && p.2.merged.vector.isSome || p.1.stored.isSome && !refused env labels p.1) then
    some ⟨env.deriveContextualVecLabel p.1.block.childId, p.1.block.blockId, p.1.block.childId⟩
  else none

/-- Hype blocks are to be written for the questions of an outcome. -/
def asksHype (p : Work × ChunkChainResult) : Bool :=
  hypeExpected && p.1.answered p.2 "f38" && !p.2.hypeQuestions.isEmpty && !existing.contains p.1.block.childId

/-- Their texts cannot be embedded. -/
def hypeFails (p : Work × ChunkChainResult) : Bool :=
  asksHype hypeExpected existing p &&
    (embedBatch env (p.2.hypeQuestions.map HypeQuestion.questionText)).toOption.isNone

/-- The chunks that the hype blocks written for an outcome name. -/
def hypeAdded (p : Work × ChunkChainResult) : List String :=
  if asksHype hypeExpected existing p && !hypeFails env hypeExpected existing p then
    p.2.hypeQuestions.map HypeQuestion.sourceChildId
  else []

/-- What a repair keeps of its outcome up to the flip. -/
structure OfOutcome (p : Work × ChunkChainResult) (r : Repair) : Prop where
  row : r.row = p.1.row
  block : r.block = p.1.block
  merged : r.merged = p.2.merged
  owed : r.owedBefore = p.1.members

/-- A repair whose points are settled. -/
structure Pointed (p : Work × ChunkChainResult) (r : Repair) : Prop where
  of : OfOutcome p r
  hype : r.hype = p.2.hypeQuestions
  label : r.writeLabel = labelAdded env labels p
  still : r.stillOwed = [] ↔ (∀ tok ∈ p.1.members, memberFailed p.2 tok = false) ∧ refused env labels p.1 = false
  owesHype : r.owes "f38" = p.1.answered p.2 "f38"

/-- A repair after the assembly. -/
structure Planned (p : Work × ChunkChainResult) (r : Repair) : Prop where
  of : OfOutcome p r
  label : r.writeLabel = labelAdded env labels p
  still : r.stillOwed = [] ↔ (∀ tok ∈ p.1.members, memberFailed p.2 tok = false) ∧ refused env labels p.1 = false ∧
    hypeFails env hypeExpected existing p = false

end Assembly

variable {env : Writer} {labels : Option (List ContextualVecLabelRow)} {hypeExpected : Bool} {existing : List String}
  {p : Work × ChunkChainResult} {r : Repair} {rs : List Repair} {out : WriteSet}

theorem contains_filter (members : List String) (failed : String → Bool) (tok : String) :
    (members.filter failed).contains tok = (members.contains tok && failed tok) := by
  rw [Bool.eq_iff_iff]
  simp

theorem repairOf_owes (h : ∀ t ∈ p.1.members, Token t) (tok : String) : (repairOf p).owes tok = p.1.answered p.2 tok := by
  unfold Repair.owes Work.answered repairOf chainRepair
  rw [splitCsv_joinCsv h, contains_filter]
  rcases p.1.members.contains tok <;> simp

theorem addChainPoint_fst : (addChainPoint env labels r out).1 =
    { r with
      writeLabel :=
        if r.labelExpected && r.owes "f35" && !hasLabel labels (env.deriveContextualVecLabel r.block.childId) &&
            r.merged.vector.isSome then
          some ⟨env.deriveContextualVecLabel r.block.childId, r.block.blockId, r.block.childId⟩
        else r.writeLabel } := by
  unfold addChainPoint
  split
  · rename_i v hv
    rw [hv, Option.isSome_some, Bool.and_true]
    split <;> rfl
  · rename_i hv
    rw [hv]
    simp

theorem addChainPoint_blocks : (addChainPoint env labels r out).2.blocks = out.blocks := by
  unfold addChainPoint
  split
  · split <;> rfl
  · rfl

theorem addStoredPoint_blocks : (addStoredPoint env labels r out).2.blocks = out.blocks := by
  unfold addStoredPoint
  split
  · dsimp only
    split <;> rfl
  · rfl

/-- A stored vector that the index cannot take leaves `f35` owed, and any other gets a label. -/
theorem addStoredPoint_fst : (addStoredPoint env labels r out).1 =
    if r.ctxLabelOnly && r.labelExpected && !hasLabel labels (env.deriveContextualVecLabel r.block.childId) then
      if 0 < env.indexDim ∧ (r.storedCtx.getD []).length ≠ env.indexDim then
        r.oweAgain "f35" ("CX_ERR_ENRICH_BACKFILL_VECTOR_DIM: stored contextual vector has " ++
          toString (r.storedCtx.getD []).length ++ " floats, index takes " ++ toString env.indexDim)
      else
        { r with
          writeLabel := some ⟨env.deriveContextualVecLabel r.block.childId, r.block.blockId, r.block.childId⟩ }
    else r := by
  unfold addStoredPoint
  split
  · dsimp only
    split <;> rfl
  · rfl

theorem oweAgain_ne_nil (tok msg : String) : (r.oweAgain tok msg).stillOwed ≠ [] := by
  unfold Repair.oweAgain
  split
  · rename_i h
    intro hnil
    rw [hnil] at h
    exact absurd h (by simp)
  · simp

theorem oweAgain_owes {tok tok' : String} (msg : String) (h : tok' ≠ tok) : (r.oweAgain tok msg).owes tok' = r.owes tok' := by
  unfold Repair.oweAgain Repair.owes
  split
  · rfl
  · simp [h]

theorem repairOf_owedBefore (h : ∀ t ∈ p.1.members, Token t) : (repairOf p).owedBefore = p.1.members :=
  splitCsv_joinCsv h

theorem repairOf_still (h : ∀ t ∈ p.1.members, Token t) :
    (repairOf p).stillOwed = [] ↔ ∀ tok ∈ p.1.members, memberFailed p.2 tok = false := by
  show (splitCsv (joinCsv p.1.members)).filter (memberFailed p.2) = [] ↔ _
  rw [splitCsv_joinCsv h, List.filter_eq_nil_iff]
  simp

theorem repairOf_addsChain (h : ∀ t ∈ p.1.members, Token t) :
    ((repairOf p).labelExpected && (repairOf p).owes "f35" &&
      !hasLabel labels (env.deriveContextualVecLabel (repairOf p).block.childId) &&
        (repairOf p).merged.vector.isSome) =
      (labelMissing env labels p.1 && (p.1.answered p.2 "f35" && p.2.merged.vector.isSome)) := by
  rw [repairOf_owes h]
  show (p.1.labelExpected && p.1.answered p.2 "f35" &&
    !hasLabel labels (env.deriveContextualVecLabel p.1.block.childId) && p.2.merged.vector.isSome) = _
  unfold labelMissing
  rcases p.1.labelExpected <;> rcases p.1.answered p.2 "f35" <;> simp

theorem repairOf_addsStored :
    ((repairOf p).ctxLabelOnly && (repairOf p).labelExpected &&
      !hasLabel labels (env.deriveContextualVecLabel (repairOf p).block.childId)) =
      (p.1.stored.isSome && labelMissing env labels p.1) := by
  show (p.1.stored.isSome && p.1.labelExpected && p.1.labelExpected &&
    !hasLabel labels (env.deriveContextualVecLabel p.1.block.childId)) = _
  unfold labelMissing
  rcases p.1.labelExpected <;> simp

theorem pointed_addPoints (h : ∀ t ∈ p.1.members, Token t) :
    Pointed env labels p (addStoredPoint env labels (addChainPoint env labels (repairOf p) out).1
      (addChainPoint env labels (repairOf p) out).2).1 := by
  have howed := repairOf_owedBefore h
  have hfailed := repairOf_still h
  have hf38 := repairOf_owes h "f38"
  have hvector : (repairOf p).storedCtx = p.1.stored := rfl
  rw [addStoredPoint_fst, addChainPoint_fst, repairOf_addsChain h]
  rw [repairOf_addsStored, hvector]
  by_cases hcond : (p.1.stored.isSome && labelMissing env labels p.1) = true
  · rw [if_pos hcond]
    by_cases hbad : 0 < env.indexDim ∧ (p.1.stored.getD []).length ≠ env.indexDim
    · -- the vector is refused; a point of the chain keeps its label
      have hrefused : refused env labels p.1 = true := by
        unfold refused
        rw [hcond, decide_eq_true hbad]
        rfl
      rw [if_pos hbad]
      refine ⟨⟨rfl, rfl, rfl, howed⟩, rfl, ?_, ?_, ?_⟩
      · unfold labelAdded
        rw [hrefused, Bool.not_true, Bool.and_false, Bool.or_false]
        rfl
      · rw [hrefused]
        exact iff_of_false (oweAgain_ne_nil _ _) (fun hall => absurd hall.2 (by decide))
      · rw [oweAgain_owes _ (by decide)]
        exact hf38
    · have hrefused : refused env labels p.1 = false := by
        unfold refused
        rw [decide_eq_false hbad, Bool.and_false]
      rw [if_neg hbad]
      refine ⟨⟨rfl, rfl, rfl, howed⟩, rfl, ?_, ?_, hf38⟩
      · rw [Bool.and_eq_true] at hcond
        unfold labelAdded
        rw [hrefused, hcond.1, hcond.2, Bool.not_false, Bool.and_true, Bool.or_true, Bool.and_true, if_pos rfl]
        rfl
      · rw [hrefused]
        simpa using hfailed
  · have hrefused : refused env labels p.1 = false := by
      unfold refused
      rw [Bool.eq_false_iff.mpr hcond, Bool.false_and]
    rw [if_neg hcond]
    refine ⟨⟨rfl, rfl, rfl, howed⟩, rfl, ?_, ?_, hf38⟩
    · -- without a stored vector, or with the label in place, only the chain adds a point
      unfold labelAdded
      rw [hrefused, Bool.not_false, Bool.and_true]
      rcases hm : labelMissing env labels p.1
      · rfl
      · rw [hm, Bool.and_true] at hcond
        rw [Bool.eq_false_iff.mpr hcond, Bool.or_false]
        rfl
    · rw [hrefused]
      simpa using hfailed

theorem length_embedBatch {texts : List String} {embs : List Embedding} (h : embedBatch env texts = .ok embs) :
    embs.length = texts.length := by
  unfold embedBatch at h
  induction texts generalizing embs with
  | nil =>
    cases h
    rfl
  | cons t texts ih =>
    rw [List.mapM_cons] at h
    rcases hv : env.embed t with msg | v
    · rw [hv] at h
      cases h
    · rcases hvs : texts.mapM env.embed with msg | vs
      · rw [hv, hvs] at h
        cases h
      · rw [hv, hvs] at h
        cases h
        rw [List.length_cons, List.length_cons, ih hvs]

theorem hypeSources_append (blocks blocks' : List Block) :
    hypeSources (blocks ++ blocks') = hypeSources blocks ++ hypeSources blocks' := List.filterMap_append

theorem hypeSources_new (n : Nat) (qs : List (HypeQuestion × Embedding)) :
    hypeSources ((qs.mapIdx fun i q => (hypeBlock env q.1 (n + i), q.2)).map Prod.fst) =
      qs.map fun q => q.1.sourceChildId := by
  unfold hypeSources
  induction qs generalizing n with
  | nil => rfl
  | cons q qs ih =>
    rw [List.mapIdx_cons, List.map_cons, List.filterMap_cons, List.map_cons, ← ih (n + 1)]
    simp [hypeBlock, Nat.add_assoc, Nat.add_comm 1]

theorem planned_addHypeBlocks (hypeExpected : Bool) (existing : List String) (out : WriteSet)
    (hr : Pointed env labels p r) :
    Planned env labels hypeExpected existing p (addHypeBlocks env hypeExpected existing r out).1 ∧
      hypeSources (addHypeBlocks env hypeExpected existing r out).2.blocks =
        hypeSources out.blocks ++ hypeAdded env hypeExpected existing p := by
  have hasks : (hypeExpected && r.owes "f38" && !r.hype.isEmpty && !existing.contains r.block.childId) =
      asksHype hypeExpected existing p := by
    rw [hr.owesHype, hr.hype, hr.of.block]
    rfl
  unfold addHypeBlocks
  rw [hasks, hr.hype]
  by_cases h : asksHype hypeExpected existing p = true
  · rw [if_pos h]
    split
    · rename_i msg hembed
      have hfails : hypeFails env hypeExpected existing p = true := by
        unfold hypeFails
        rw [h, hembed]
        rfl
      refine ⟨⟨⟨hr.of.row, hr.of.block, hr.of.merged, hr.of.owed⟩, hr.label, ?_⟩, ?_⟩
      · rw [hfails]
        exact iff_of_false (by simp [Repair.keepOwed]) (fun hall => absurd hall.2.2 (by decide))
      · unfold hypeAdded
        rw [hfails, Bool.not_true, Bool.and_false, if_neg (by decide), List.append_nil]
    · rename_i embs hembed
      have hfails : hypeFails env hypeExpected existing p = false := by
        unfold hypeFails
        rw [hembed]
        exact Bool.and_false _
      have hlen : p.2.hypeQuestions.length ≤ embs.length := by
        rw [length_embedBatch hembed, List.length_map]
      have hzip : ((p.2.hypeQuestions.zip embs).map fun q => q.1.sourceChildId) =
          p.2.hypeQuestions.map HypeQuestion.sourceChildId := by
        conv_rhs => rw [← List.map_fst_zip hlen, List.map_map]
        rfl
      refine ⟨⟨hr.of, hr.label, ?_⟩, ?_⟩
      · rw [hfails, hr.still]
        simp
      · unfold hypeAdded
        rw [hypeSources_append, hypeSources_new, hzip, hfails, h, Bool.not_false, Bool.and_true, if_pos rfl]
  · have hfails : hypeFails env hypeExpected existing p = false := by
      unfold hypeFails
      rw [Bool.eq_false_iff.mpr h, Bool.false_and]
    rw [if_neg h]
    refine ⟨⟨hr.of, hr.label, ?_⟩, ?_⟩
    · rw [hfails, hr.still]
      simp
    · unfold hypeAdded
      rw [Bool.eq_false_iff.mpr h, Bool.false_and, if_neg (by decide), List.append_nil]

theorem planned_assembleOne (env : Writer) (labels : Option (List ContextualVecLabelRow)) (hypeExpected : Bool)
    (existing : List String) (out : WriteSet) (h : ∀ t ∈ p.1.members, Token t) :
    Planned env labels hypeExpected existing p
        (assembleOne env labels hypeExpected existing (repairOf p) out).1 ∧
      hypeSources (assembleOne env labels hypeExpected existing (repairOf p) out).2.blocks =
        hypeSources out.blocks ++ hypeAdded env hypeExpected existing p := by
  unfold assembleOne
  obtain ⟨hplan, hblocks⟩ := planned_addHypeBlocks hypeExpected existing
    (addStoredPoint env labels (addChainPoint env labels (repairOf p) out).1
      (addChainPoint env labels (repairOf p) out).2).2 (pointed_addPoints h)
  rw [addStoredPoint_blocks, addChainPoint_blocks] at hblocks
  exact ⟨hplan, hblocks⟩

theorem assemble_spec (out : WriteSet) {outs : List (Work × ChunkChainResult)} (h : ∀ p ∈ outs, ∀ t ∈ p.1.members, Token t) :
    List.Forall₂ (Planned env labels hypeExpected existing) outs
        (assemble env labels hypeExpected existing (outs.map repairOf) out).1 ∧
      hypeSources (assemble env labels hypeExpected existing (outs.map repairOf) out).2.blocks =
        hypeSources out.blocks ++ outs.flatMap (hypeAdded env hypeExpected existing) := by
  induction outs generalizing out with
  | nil => exact ⟨.nil, (List.append_nil _).symm⟩
  | cons p outs ih =>
    obtain ⟨hplan, hblocks⟩ := planned_assembleOne env labels hypeExpected existing out (h p (by simp))
    rw [List.map_cons, assemble_cons]
    obtain ⟨hrest, hmore⟩ := ih (assembleOne env labels hypeExpected existing (repairOf p) out).2
      fun p' hp' => h p' (by simp [hp'])
    refine ⟨.cons hplan hrest, ?_⟩
    rw [hmore, hblocks, List.flatMap_cons, List.append_assoc]

/-! ## The writes of a repair -/

/-- Two versions of a block that agree on its ids and on the gate of the index. -/
structure Alike (x x' : Block) : Prop where
  blockId : x'.blockId = x.blockId
  docId : x'.docId = x.docId
  childId : x'.childId = x.childId
  skipIndex : x'.metadata.skipIndex = x.metadata.skipIndex

theorem Alike.refl (x : Block) : Alike x x := ⟨rfl, rfl, rfl, rfl⟩

theorem Alike.trans {x y z : Block} (h : Alike x y) (h' : Alike y z) : Alike x z :=
  ⟨h'.blockId.trans h.blockId, h'.docId.trans h.docId, h'.childId.trans h.childId, h'.skipIndex.trans h.skipIndex⟩

/-- The block of a repair before and after its statements, none of them failing. -/
structure Wrote (r : Repair) (x x' : Block) : Prop extends Alike x x' where
  score : x'.enrichedScore.isSome =
    (x.enrichedScore.isSome || (r.owes "f03" && (r.merged.ok && !r.merged.enricherName.isEmpty)))
  status : x'.contextualizedStatus =
    if r.owes "f35" && f35Ran r.merged then r.merged.contextualizedStatus else x.contextualizedStatus

variable {x : Block} {blocks : List Block} {b : Nat}

theorem persistScore_fst (r : Repair) (st : UnitStore) : (persistScore none r st).1 = r := by
  unfold persistScore
  split <;> rfl

theorem blockHasEnrichedScore_eq (hkeys : Keyed Block.blockId blocks) (hx : blockOf b blocks = some x) :
    blockHasEnrichedScore b blocks = x.enrichedScore.isSome := by
  obtain ⟨hmem, hb⟩ := lookup_eq_some hx
  rw [Bool.eq_iff_iff]
  unfold blockHasEnrichedScore
  rw [List.any_eq_true]
  constructor
  · rintro ⟨y, hy, hscore⟩
    rw [Bool.and_eq_true, beq_iff_eq] at hscore
    rw [← hkeys.eq_of_key hy hmem (hscore.1.trans hb.symm)]
    exact hscore.2
  · exact fun hscore => ⟨x, hmem, by simp [hb, hscore]⟩

theorem blockOf_summary (summary : String) (hx : blockOf b blocks = some x) :
    ∃ x', blockOf b (updateBlockMetadataSummary b summary blocks) = some x' ∧ Alike x x' ∧
      x'.contextualizedStatus = x.contextualizedStatus ∧ x'.enrichedScore = x.enrichedScore := by
  unfold updateBlockMetadataSummary
  split
  · exact ⟨x, hx, .refl x, rfl, rfl⟩
  · rw [blockOf_updateWhere_self (by intro _; rfl), hx]
    exact ⟨_, rfl, ⟨rfl, rfl, rfl, rfl⟩, rfl, rfl⟩

theorem persistScore_wrote (hkeys : Keyed Block.blockId st.blocks) (hx : blockOf r.block.blockId st.blocks = some x) :
    ∃ x', blockOf r.block.blockId (persistScore none r st).2.blocks = some x' ∧ Alike x x' ∧
      x'.contextualizedStatus = x.contextualizedStatus ∧
      x'.enrichedScore.isSome =
        (x.enrichedScore.isSome || (r.owes "f03" && (r.merged.ok && !r.merged.enricherName.isEmpty))) := by
  unfold persistScore
  rw [blockHasEnrichedScore_eq hkeys hx]
  split
  · rename_i hcond
    simp only [Bool.and_eq_true, Bool.not_eq_true'] at hcond
    obtain ⟨⟨howes, hok⟩, hnone⟩ := hcond
    -- the summary is written to the block with the score
    rw [howes, hok, hnone, Bool.true_and, Bool.true_and, Bool.false_or]
    by_cases hname : r.merged.enricherName.isEmpty = true
    · have hsame : writeEnrichment r.block.blockId r.merged st.blocks = st.blocks := by
        unfold writeEnrichment
        rw [hname, Bool.not_true, Bool.and_false, if_neg (by decide)]
      obtain ⟨x', hx', halike, hstatus, hscore⟩ := blockOf_summary r.merged.summary hx
      rw [hsame]
      exact ⟨x', hx', halike, hstatus, by rw [hscore, hnone, hname]; rfl⟩
    · have hwrite : blockOf r.block.blockId (writeEnrichment r.block.blockId r.merged st.blocks) =
          some { x with enrichedScore := some r.merged.enrichedScore } := by
        unfold writeEnrichment
        rw [hok, Bool.eq_false_iff.mpr hname, Bool.not_false, Bool.and_true, if_pos rfl,
          blockOf_updateWhere_self (by intro _; rfl), hx]
        rfl
      obtain ⟨x', hx', halike, hstatus, hscore⟩ := blockOf_summary r.merged.summary hwrite
      have hscored : Alike x { x with enrichedScore := some r.merged.enrichedScore } := ⟨rfl, rfl, rfl, rfl⟩
      exact ⟨x', hx', hscored.trans halike, hstatus, by rw [hscore, Bool.eq_false_iff.mpr hname]; rfl⟩
  · rename_i hcond
    refine ⟨x, hx, .refl x, rfl, ?_⟩
    rcases hscore : x.enrichedScore.isSome
    · rw [hscore, Bool.not_false, Bool.and_true] at hcond
      rcases howes : r.owes "f03" <;> rcases hok : r.merged.ok <;> simp [howes, hok] at hcond ⊢
    · rfl

theorem persist_wrote (hkeys : Keyed Block.blockId st.blocks) (hx : blockOf r.block.blockId st.blocks = some x) :
    ∃ x', blockOf r.block.blockId (persist {} r st).2.blocks = some x' ∧ Wrote r x x' := by
  obtain ⟨y, hy, halike, hstatus, hscore⟩ := persistScore_wrote hkeys hx
  unfold persist
  dsimp only
  rw [persistScore_fst, (persistLabel_spec _ _ _).2.1]
  unfold persistColumns
  by_cases howes : r.owes "f35" = true
  · rw [if_pos howes]
    unfold writeContextualized
    by_cases hran : f35Ran r.merged = true
    · rw [if_pos hran, blockOf_updateWhere_self (by intro _; rfl), hy]
      refine ⟨_, rfl, halike.trans ⟨rfl, rfl, rfl, rfl⟩, hscore, ?_⟩
      rw [howes, hran]
      rfl
    · rw [if_neg hran]
      refine ⟨y, hy, halike, hscore, ?_⟩
      rw [Bool.eq_false_iff.mpr hran, Bool.and_false, if_neg (by decide)]
      exact hstatus
  · rw [if_neg howes]
    refine ⟨y, hy, halike, hscore, ?_⟩
    rw [Bool.eq_false_iff.mpr howes, Bool.false_and, if_neg (by decide)]
    exact hstatus

theorem persistScore_frame (r : Repair) (st : UnitStore) :
    (persistScore none r st).2.labels = st.labels ∧ (persistScore none r st).2.docs = st.docs := by
  unfold persistScore
  split <;> exact ⟨rfl, rfl⟩

theorem persistColumns_frame (r : Repair) (st : UnitStore) :
    (persistColumns none r st).2.labels = st.labels ∧ (persistColumns none r st).2.docs = st.docs ∧
      (persistColumns none r st).1.writeLabel = r.writeLabel ∧
      (persistColumns none r st).1.stillOwed = r.stillOwed := by
  unfold persistColumns
  split <;> exact ⟨rfl, rfl, rfl, rfl⟩

theorem persist_labels (r : Repair) (st : UnitStore) :
    (persist {} r st).2.docs = st.docs ∧
      (persist {} r st).2.labels =
        st.labels.map fun ls => (r.writeLabel.toList).foldl (fun ls l => upsertLabel l ls) ls := by
  obtain ⟨hlabels, hdocs, hlabel, -⟩ := persistColumns_frame r (persistScore none r st).2
  rw [(persistScore_frame r st).1] at hlabels
  rw [(persistScore_frame r st).2] at hdocs
  unfold persist
  dsimp only
  rw [persistScore_fst]
  unfold persistLabel
  rw [hlabel]
  rcases r.writeLabel with - | l
  · refine ⟨hdocs, ?_⟩
    rw [hlabels]
    simp
  · rw [hlabels]
    rcases hls : st.labels with - | ls
    · exact ⟨hdocs, hlabels.trans hls⟩
    · exact ⟨hdocs, rfl⟩

/-- What the statements of a repair leave owed, `there` saying that the labels have a table. -/
structure Ended (there : Bool) (r r' : Repair) : Prop where
  row : r'.row = r.row
  still : r'.stillOwed = [] ↔ r.stillOwed = [] ∧ (r.writeLabel = none ∨ there = true)

theorem persist_ended (r : Repair) (st : UnitStore) : Ended st.labels.isSome r (persist {} r st).1 := by
  obtain ⟨hlabels, -, hlabel, hstill⟩ := persistColumns_frame r (persistScore none r st).2
  rw [(persistScore_frame r st).1] at hlabels
  refine ⟨(persisted_persist {} st).kept.row, ?_⟩
  unfold persist
  dsimp only
  rw [persistScore_fst]
  unfold persistLabel
  rw [hlabel]
  rcases r.writeLabel with - | l
  · rw [hstill]
    simp
  · dsimp only
    rw [hlabels]
    rcases hls : st.labels with - | ls
    · exact iff_of_false (oweAgain_ne_nil _ _) (fun hall => by simpa using hall.2)
    · rw [hstill]
      simp

/-! ## The statements of all repairs -/

section Lists

variable {α β γ : Type} {R : α → β → Prop} {l : List α} {l' : List β}

theorem forall₂_exists (h : List.Forall₂ R l l') {a : α} (ha : a ∈ l) : ∃ c ∈ l', R a c := by
  induction h with
  | nil => cases ha
  | cons hr _ ih =>
    rcases List.mem_cons.mp ha with rfl | hmem
    · exact ⟨_, by simp, hr⟩
    · obtain ⟨c, hc, hR⟩ := ih hmem
      exact ⟨c, by simp [hc], hR⟩

theorem forall₂_map_eq {f : α → γ} {g : β → γ} (h : List.Forall₂ R l l') (hfg : ∀ a c, R a c → f a = g c) :
    l.map f = l'.map g := by
  rw [← List.forall₂_eq_eq_eq, List.forall₂_map_left_iff, List.forall₂_map_right_iff]
  exact h.imp hfg

end Lists

theorem persistAll_cons (r : Repair) (rs : List Repair) (st : UnitStore) :
    persistAll (r :: rs) st =
      ((persist {} r st).1 :: (persistAll rs (persist {} r st).2).1, (persistAll rs (persist {} r st).2).2) := rfl

theorem keyed_persistAll (rs : List Repair) (hkeys : Keyed Block.blockId st.blocks) :
    Keyed Block.blockId (persistAll rs st).2.blocks := by
  induction rs generalizing st with
  | nil => exact hkeys
  | cons r rs ih => exact ih ((persisted_persist {} st).edited.keyed hkeys)

theorem persistAll_other (hb : ∀ r ∈ rs, r.block.blockId ≠ b) (st : UnitStore) :
    blockOf b (persistAll rs st).2.blocks = blockOf b st.blocks := by
  induction rs generalizing st with
  | nil => rfl
  | cons r rs ih =>
    rw [persistAll_cons, ih (fun r' h => hb r' (by simp [h]))]
    exact (persisted_persist {} st).edited.other b (Ne.symm (hb r (by simp)))

theorem persistAll_wrote (hnodup : (rs.map fun r => r.block.blockId).Nodup) (hr : r ∈ rs)
    (hkeys : Keyed Block.blockId st.blocks) (hx : blockOf r.block.blockId st.blocks = some x) :
    ∃ x', blockOf r.block.blockId (persistAll rs st).2.blocks = some x' ∧ Wrote r x x' := by
  induction rs generalizing st with
  | nil => cases hr
  | cons r₀ rs ih =>
    obtain ⟨hnot, hnodup⟩ := List.nodup_cons.mp hnodup
    have hedit := (persisted_persist (r := r₀) {} st).edited
    rw [persistAll_cons]
    rcases List.mem_cons.mp hr with rfl | hmem
    · rw [persistAll_other fun r' hr' hb => hnot (List.mem_map.mpr ⟨r', hr', hb⟩)]
      exact persist_wrote hkeys hx
    · have hne : r.block.blockId ≠ r₀.block.blockId := fun hb => hnot (List.mem_map.mpr ⟨r, hmem, hb⟩)
      refine ih hnodup hmem (hedit.keyed hkeys) ?_
      rw [hedit.other _ hne]
      exact hx

/-- What the statements leave of the hype questions, the documents, the labels and the repairs. -/
theorem persistAll_spec (rs : List Repair) (st : UnitStore) :
    hypeSources (persistAll rs st).2.blocks = hypeSources st.blocks ∧ (persistAll rs st).2.docs = st.docs ∧
      (persistAll rs st).2.labels =
        st.labels.map (fun ls => (rs.filterMap Repair.writeLabel).foldl (fun ls l => upsertLabel l ls) ls) ∧
      List.Forall₂ (Ended st.labels.isSome) rs (persistAll rs st).1 := by
  induction rs generalizing st with
  | nil =>
    refine ⟨rfl, rfl, ?_, .nil⟩
    show st.labels = _
    simp
  | cons r rs ih =>
    obtain ⟨hdocs, hlabels⟩ := persist_labels r st
    obtain ⟨ihhype, ihdocs, ihlabels, ihended⟩ := ih (persist {} r st).2
    have hthere : (persist {} r st).2.labels.isSome = st.labels.isSome := by
      rw [hlabels, Option.isSome_map]
    rw [persistAll_cons]
    refine ⟨ihhype.trans (persisted_persist {} st).edited.hype, ihdocs.trans hdocs, ?_,
      .cons (persist_ended r st) (hthere ▸ ihended)⟩
    rw [ihlabels, hlabels, Option.map_map]
    congr 1
    funext ls
    rw [Function.comp_apply, List.filterMap_cons]
    rcases r.writeLabel <;> rfl

theorem keyed_insertBlocks {new blocks' : List Block} (h : insertBlocks new blocks = some blocks')
    (hkeys : Keyed Block.blockId blocks) : Keyed Block.blockId blocks' := by
  induction new generalizing blocks with
  | nil =>
    cases h
    exact hkeys
  | cons x new ih =>
    obtain ⟨mid, hmid, h⟩ := Option.bind_eq_some_iff.mp h
    exact ih h (hkeys.insertRow hmid)

/-! ## The row at the end -/

variable {rows : List EnrichStateRow} {row : EnrichStateRow}

theorem flipRow_ok (now : Int) (r : Repair) : (flipRow now r).status = .ok ↔ r.stillOwed = [] := by
  unfold flipRow
  dsimp only
  rcases hstill : r.stillOwed with - | ⟨t, ts⟩
  · simp
  · rw [List.isEmpty_cons, if_neg (by decide)]
    split <;> simp

theorem rowOf_settleAll (now : Int) (hb : ∀ w ∈ ws, w.isSettled = true → w.row.blockId ≠ b) :
    rowOf b (settleAll now ws rows) = rowOf b rows := by
  have hfold : ∀ (l : List Work) (rows : List EnrichStateRow), (∀ w ∈ l, w.row.blockId ≠ b) →
      rowOf b (l.foldl (fun rows w => flipEnrichStateIfGeneration (settledRow w.row now) w.row.generation rows) rows) =
        rowOf b rows := by
    intro l
    induction l with
    | nil => exact fun _ _ => rfl
    | cons w l ih =>
      intro rows hne
      rw [List.foldl_cons, ih _ fun w' hw' => hne w' (by simp [hw'])]
      exact rowOf_flip_stale fun _ _ hid => absurd hid (hne w (by simp))
  refine hfold _ rows fun w hw => ?_
  obtain ⟨hmem, hsettled⟩ := List.mem_filter.mp hw
  exact hb w hmem hsettled

/-- A row that no flip is for, or that has another generation than was read, is left alone. -/
theorem rowOf_flipAll_stale (now : Int)
    (hb : ∀ r ∈ rs, r.row.blockId = b → ∀ y, rowOf b rows = some y → y.generation ≠ r.row.generation) :
    rowOf b (flipAll now rs rows) = rowOf b rows := by
  unfold flipAll
  induction rs generalizing rows with
  | nil => rfl
  | cons r rs ih =>
    have hkept : rowOf b (flipEnrichStateIfGeneration (flipRow now r) r.row.generation rows) = rowOf b rows :=
      rowOf_flip_stale fun x hx hid => hb r (by simp) ((flipRow_spec now r).1.symm.trans hid) x hx
    rw [List.foldl_cons, ih fun r' hr' => hkept ▸ hb r' (by simp [hr']), hkept]

theorem rowOf_flipAll_other (now : Int) (hb : ∀ r ∈ rs, r.row.blockId ≠ b) (rows : List EnrichStateRow) :
    rowOf b (flipAll now rs rows) = rowOf b rows :=
  rowOf_flipAll_stale now fun r hr hid => absurd hid (hb r hr)

theorem rowOf_flipAll (now : Int) (hnodup : (rs.map fun r => r.row.blockId).Nodup) (hr : r ∈ rs)
    {y : EnrichStateRow} (hy : rowOf r.row.blockId rows = some y) (hgen : y.generation = r.row.generation) :
    rowOf r.row.blockId (flipAll now rs rows) = some ((flipRow now r).flip y) := by
  induction rs generalizing rows with
  | nil => cases hr
  | cons r₀ rs ih =>
    obtain ⟨hnot, hnodup⟩ := List.nodup_cons.mp hnodup
    have hid : y.blockId = r.row.blockId := (lookup_eq_some hy).2
    show rowOf r.row.blockId (flipAll now rs (flipEnrichStateIfGeneration (flipRow now r₀) r₀.row.generation rows)) = _
    rcases List.mem_cons.mp hr with rfl | hmem
    · rw [rowOf_flipAll_other now fun r' hr' hb => hnot (List.mem_map.mpr ⟨r', hr', hb⟩), rowOf_flip, hy]
      simp [hid, hgen, (flipRow_spec now r).1]
    · have hne : r.row.blockId ≠ r₀.row.blockId := fun hb => hnot (List.mem_map.mpr ⟨r, hmem, hb⟩)
      refine ih hnodup hmem ?_
      rw [rowOf_flip_stale fun _ _ hb => absurd ((flipRow_spec now r₀).1.symm.trans hb).symm hne, hy]

end Cortrix.Spc.BackfillWorker
