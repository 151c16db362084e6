import Mathlib.Data.List.Count
import Mathlib.Data.List.Dedup

/-!
# The enricher chain

The members of the chain run over the chunks of a document one after the other, and each contributes its part of the
result: the head (`f03`) the entities, summary and score, the contextual retrieval (`f35`) the `contextualized_*` fields,
the hype enricher (`f38`) its questions. A member that is not available, or not in the filter, records a skipped step; one
that fails records its status. What a provider answers is a parameter, for each chunk of a call on its own. A float is
kept by its bits in a vector and as a rational in a score.

* `enrichChunks_sound` : a result with a contextual vector is one whose status says so.
-/

namespace Cortrix.Spc

abbrev Embedding := List UInt32

structure ChunkContext where
  chunkText : String
  chunkIndex : Int
  prevChunkText : String
  nextChunkText : String

structure EnrichResult where
  status : Int := 0
  summary : String := ""
  enrichedScore : Rat := 0
  errorMsg : String := ""
  structuredData : String := ""
  enricherName : String := ""
  contextualizedText : Option String := none
  contextualizedEmbedding : Option Embedding := none
  contextualizedStatus : Int := 0

def EnrichResult.ok (r : EnrichResult) : Bool := r.status == 0

/-- The contextual vector a result carries, when it carries one that is not empty. -/
def EnrichResult.vector (r : EnrichResult) : Option Embedding := r.contextualizedEmbedding.filter fun v => !v.isEmpty

structure HypeQuestion where
  questionText : String
  questionIndex : Nat
  sourceChildId : String
  sourceParentId : String

structure EnricherStepOutcome where
  name : String
  status : Int
  errorCode : String
  skipped : Bool

structure ChunkChainResult where
  merged : EnrichResult := {}
  hypeQuestions : List HypeQuestion := []
  steps : List EnricherStepOutcome := []

/-- The message of a status that a member's error code gives. -/
def codedMessage (code detail : String) : String := if detail.isEmpty then code else code ++ ": " ++ detail

/-! ## The head -/

/-- What the head returns for a chunk; it leaves the `contextualized_*` fields at their defaults. -/
structure HeadResult where
  status : Int
  summary : String
  enrichedScore : Rat
  errorMsg : String
  structuredData : String
  enricherName : String

def HeadResult.toEnrichResult (h : HeadResult) : EnrichResult :=
  { status := h.status, summary := h.summary, enrichedScore := h.enrichedScore, errorMsg := h.errorMsg
    structuredData := h.structuredData, enricherName := h.enricherName }

/-- The head of the chain, an enricher of entities and summaries. An error of the batch is an exception. -/
structure HeadEnricher where
  name : String
  isAvailable : Bool
  enrichBatch : List ChunkContext → Except String (List HeadResult)

def nullEnricher : HeadEnricher where
  name := "NullEnricher"
  isAvailable := false
  enrichBatch ctxs := .ok (ctxs.map fun _ => ⟨0, "", 0, "", "", ""⟩)

/-! ## Contextual retrieval -/

/-- The client and the embedder answer for the chunk at a position of the call. -/
structure ContextualRetrievalEnricher where
  enabled : Bool
  maxOutputTokens : Nat
  guardCharsPerToken : Int
  llmClient : Option (Nat → ChunkContext → Except String String)
  embedder : Option (Nat → String → Except String Embedding)

namespace ContextualRetrievalEnricher

def name : String := "f35_contextual_retrieval"

def isAvailable (e : ContextualRetrievalEnricher) : Bool := e.llmClient.isSome && e.enabled

def generateContextualizedText (e : ContextualRetrievalEnricher) (i : Nat) (ctx : ChunkContext) : Except String String :=
  match e.llmClient with
  | none => .error (codedMessage "CX_ERR_F35_STARTUP_NO_LLM" "no LLM client")
  | some chat =>
    match chat i ctx with
    | .error msg => .error (codedMessage "CX_ERR_F35_LLM_FAILED" msg)
    | .ok content =>
      -- the length in bytes stands for the token budget
      if e.maxOutputTokens * (max e.guardCharsPerToken 1).toNat < content.utf8ByteSize then
        .error (codedMessage "CX_ERR_F35_PROMPT_INJECTION" ("output length " ++ toString content.utf8ByteSize ++
          " exceeds " ++ toString e.guardCharsPerToken ++ "x max_output_tokens " ++ toString e.maxOutputTokens))
      else .ok content

def enrich (e : ContextualRetrievalEnricher) (i : Nat) (ctx : ChunkContext) : EnrichResult :=
  let result : EnrichResult := { enricherName := name }
  if !e.isAvailable then { result with contextualizedStatus := 3 }
  else
    match e.generateContextualizedText i ctx with
    | .error msg =>
      { result with
        contextualizedStatus := 2
        errorMsg := msg
        structuredData := "\x7b\"enricher\":\"f35_contextual_retrieval\"\x7d" }
    | .ok text =>
      let contextualized := text ++ "\n" ++ ctx.chunkText
      match e.embedder with
      | none =>
        { result with
          contextualizedText := some contextualized
          contextualizedStatus := 2
          errorMsg := codedMessage "CX_ERR_F35_EMBEDDING_FAILED" "no embedder" }
      | some embed =>
        match embed i contextualized with
        | .error msg =>
          { result with
            contextualizedText := some contextualized
            contextualizedStatus := 2
            errorMsg := codedMessage "CX_ERR_F35_EMBEDDING_FAILED" msg }
        | .ok v =>
          { result with
            contextualizedText := some contextualized
            contextualizedEmbedding := some v
            contextualizedStatus := 1 }

def enrichBatch (e : ContextualRetrievalEnricher) (ctxs : List ChunkContext) : List EnrichResult := ctxs.mapIdx e.enrich

end ContextualRetrievalEnricher

/-! ## Hypothetical questions -/

structure HyPEEnricher where
  questionsPerChunk : Int
  /-- The answer for the chunk at a position of the call, from its text and that of its parent. -/
  llmClient : Option (Nat → String → String → Except String String)

namespace HyPEEnricher

def name : String := "hype"

def isAvailable (e : HyPEEnricher) : Bool := e.llmClient.isSome && decide (1 ≤ e.questionsPerChunk)

def isBlank (c : Char) : Bool := c == ' ' || c == '\t' || c == '\r' || c == '\n'

/-- The lines of a text without the blanks around them, the blank ones left out. -/
def splitLines (text : String) : List String :=
  (((text.toList.splitOn '\n').map fun line =>
    ((line.dropWhile isBlank).reverse.dropWhile isBlank).reverse).filter fun line => !line.isEmpty).map String.ofList

def parseQuestions (llmOutput : String) (expectedK : Int) : Except String (List String) :=
  let questions := splitLines llmOutput
  if questions.isEmpty then
    .error (codedMessage "CX_ERR_F38_LLM_INVALID_OUTPUT" ("empty output, expected " ++ toString expectedK ++ " questions"))
  else if (questions.length : Int) ≠ expectedK then
    .error (codedMessage "CX_ERR_F38_QUESTION_PARSE_FAILED"
      ("expected " ++ toString expectedK ++ " questions, got " ++ toString questions.length))
  else .ok questions

def generateHypeQuestions (e : HyPEEnricher) (i : Nat) (chunkText parentText childId parentId : String) :
    Except String (List HypeQuestion) :=
  match e.llmClient with
  | none => .error (codedMessage "CX_ERR_F38_LLM_TIMEOUT" "no LLM client")
  | some chat =>
    match chat i chunkText parentText with
    | .error msg => .error (codedMessage "CX_ERR_F38_LLM_TIMEOUT" msg)
    | .ok content =>
      match parseQuestions content e.questionsPerChunk with
      | .error msg => .error msg
      | .ok texts => .ok (texts.mapIdx fun k text => ⟨text, k, childId, parentId⟩)

end HyPEEnricher

/-! ## The chain -/

inductive Enricher
  | head (e : HeadEnricher)
  | contextual (e : ContextualRetrievalEnricher)
  | hype (e : HyPEEnricher)

namespace Enricher

def name : Enricher → String
  | head e => e.name
  | contextual _ => ContextualRetrievalEnricher.name
  | hype _ => HyPEEnricher.name

def isAvailable : Enricher → Bool
  | head e => e.isAvailable
  | contextual e => e.isAvailable
  | hype e => e.isAvailable

def isContextual : Enricher → Bool
  | contextual _ => true
  | _ => false

/-- The batch of a member that is not routed to its own interface. -/
def enrichBatch (e : Enricher) (ctxs : List ChunkContext) : Except String (List EnrichResult) :=
  match e with
  | head e => (e.enrichBatch ctxs).map fun rs => rs.map HeadResult.toEnrichResult
  | contextual e => .ok (e.enrichBatch ctxs)
  | hype _ => .ok []

end Enricher

def chainMemberToken (enricherName : String) : String :=
  if enricherName = "hype" then "f38"
  else if enricherName = "f35_contextual_retrieval" then "f35"
  else "f03"

/-- The chain: at most one of its members writes the `contextualized_*` fields. -/
structure EnricherChain where
  enrichers : List Enricher
  oneContextual : enrichers.countP Enricher.isContextual ≤ 1

def trim (s : String) : String :=
  String.ofList ((s.toList.dropWhile HyPEEnricher.isBlank).reverse.dropWhile HyPEEnricher.isBlank).reverse

def isKnownToken (t : String) : Bool := t == "f03" || t == "f35" || t == "f38"

/-- The known tokens of a specification, each once, with `f03` in front. -/
def parseEnricherChainSpec (spec : String) : List String :=
  let toks := ((spec.toList.splitOn ',').map fun tok => (trim (String.ofList tok)).toLower).filter isKnownToken
  let out := toks.foldl (fun out t => if out.contains t then out else out ++ [t]) []
  if out.isEmpty then ["f03"] else "f03" :: out.filter fun t => t != "f03"

namespace EnricherChain

/-- The member appended for a token; those that call a model exist only where one is configured. -/
def memberOf (h : HeadEnricher) (llm : Option (ContextualRetrievalEnricher × HyPEEnricher)) (tok : String) :
    Option Enricher :=
  if tok = "f03" then some (.head h)
  else if tok = "f35" then llm.map fun p => .contextual p.1
  else if tok = "f38" then llm.map fun p => .hype p.2
  else none

theorem parseEnricherChainSpec_nodup (spec : String) : (parseEnricherChainSpec spec).Nodup := by
  have hfold : ∀ (toks out : List String), out.Nodup →
      (toks.foldl (fun out t => if out.contains t then out else out ++ [t]) out).Nodup := by
    intro toks
    induction toks with
    | nil => exact fun out h => h
    | cons t toks ih =>
      intro out h
      rw [List.foldl_cons]
      apply ih
      split
      · exact h
      · rename_i hnot
        rw [List.nodup_append]
        refine ⟨h, List.nodup_singleton t, ?_⟩
        rintro a ha b hb rfl
        rw [List.mem_singleton.mp hb] at ha
        exact hnot (by simpa using ha)
  unfold parseEnricherChainSpec
  dsimp only
  split
  · exact List.nodup_singleton _
  · exact List.nodup_cons.mpr ⟨by simp, (hfold _ [] List.nodup_nil).filter _⟩

/-- Only the token `f35` stands for a member that writes the `contextualized_*` fields. -/
theorem memberOf_contextual {h : HeadEnricher} {llm : Option (ContextualRetrievalEnricher × HyPEEnricher)}
    {tok : String} {e : Enricher} (he : memberOf h llm tok = some e) (hc : e.isContextual = true) : tok = "f35" := by
  unfold memberOf at he
  split at he
  · cases he
    exact absurd hc (by simp [Enricher.isContextual])
  · split at he
    · assumption
    · split at he
      · obtain ⟨p, -, rfl⟩ := Option.map_eq_some_iff.mp he
        exact absurd hc (by simp [Enricher.isContextual])
      · cases he

theorem countP_contextual_le (h : HeadEnricher) (llm : Option (ContextualRetrievalEnricher × HyPEEnricher))
    (toks : List String) : (toks.filterMap (memberOf h llm)).countP Enricher.isContextual ≤ toks.count "f35" := by
  induction toks with
  | nil => exact Nat.le_refl _
  | cons tok toks ih =>
    rw [List.filterMap_cons, List.count_cons]
    split
    · omega
    · rename_i e he
      rw [List.countP_cons]
      by_cases hc : e.isContextual = true
      · rw [if_pos hc, memberOf_contextual he hc]
        simpa using ih
      · rw [if_neg hc]
        omega

/-- The chain of a specification, as the server builds it. -/
def resolve (spec : String) (h : HeadEnricher) (llm : Option (ContextualRetrievalEnricher × HyPEEnricher)) :
    EnricherChain where
  enrichers := (parseEnricherChainSpec spec).filterMap (memberOf h llm)
  oneContextual :=
    Nat.le_trans (countP_contextual_le h llm _)
      (List.nodup_iff_count_le_one.mp (parseEnricherChainSpec_nodup spec) "f35")

def anyAvailable (c : EnricherChain) : Bool := c.enrichers.any Enricher.isAvailable

/-- The texts of a call that go to the hype enricher, by position; a missing one reads as empty. -/
structure Sources where
  parentTexts : List String := []
  childIds : List String := []
  parentIds : List String := []

def pushStep (o : EnricherStepOutcome) (r : ChunkChainResult) : ChunkChainResult := { r with steps := r.steps ++ [o] }

def hypeStep (e : HyPEEnricher) (src : Sources) (ctxs : List ChunkContext) (i : Nat) (r : ChunkChainResult) :
    ChunkChainResult :=
  let text := (ctxs[i]?.map ChunkContext.chunkText).getD ""
  match e.generateHypeQuestions i text (src.parentTexts[i]?.getD "") (src.childIds[i]?.getD "")
      (src.parentIds[i]?.getD "") with
  | .ok qs => pushStep ⟨HyPEEnricher.name, 0, "", false⟩ { r with hypeQuestions := r.hypeQuestions ++ qs }
  | .error msg => pushStep ⟨HyPEEnricher.name, 1, msg, false⟩ r

/-- The fields of a step folded into the result of its chunk: a later member does not clear what an earlier one set, and
the first error stays. -/
def merge (m step : EnrichResult) : EnrichResult :=
  let firstError := !step.ok && m.status == 0
  { status := if firstError then step.status else m.status
    summary := if step.summary.isEmpty then m.summary else step.summary
    enrichedScore := if 0 < step.enrichedScore then step.enrichedScore else m.enrichedScore
    errorMsg := if firstError then step.errorMsg else m.errorMsg
    structuredData := if firstError then step.structuredData else m.structuredData
    enricherName := if m.enricherName.isEmpty then step.enricherName else m.enricherName
    contextualizedText := if step.contextualizedText.isSome then step.contextualizedText else m.contextualizedText
    contextualizedEmbedding :=
      if step.contextualizedEmbedding.isSome then step.contextualizedEmbedding else m.contextualizedEmbedding
    contextualizedStatus :=
      if step.contextualizedStatus ≠ 0 then step.contextualizedStatus else m.contextualizedStatus }

def errorCodeOf (step : EnrichResult) : String :=
  if !step.ok then (if step.structuredData.isEmpty then step.errorMsg else step.structuredData)
  else if step.contextualizedStatus = 2 ∧ step.errorMsg ≠ "" then step.errorMsg
  else ""

def mergeStep (name : String) (r : ChunkChainResult) (step : EnrichResult) : ChunkChainResult :=
  pushStep ⟨name, step.status, errorCodeOf step, false⟩ { r with merged := merge r.merged step }

/-- The batch merged chunk by chunk; a chunk the batch does not reach gets no step. -/
def mergeBatch (name : String) : List ChunkChainResult → List EnrichResult → List ChunkChainResult
  | r :: rs, step :: steps => mergeStep name r step :: mergeBatch name rs steps
  | rs, _ => rs

def runEnricher (ctxs : List ChunkContext) (src : Sources) (filter : Option (List String))
    (results : List ChunkChainResult) (e : Enricher) : List ChunkChainResult :=
  if !e.isAvailable then results.map (pushStep ⟨e.name, 0, "", true⟩)
  else if filter.any fun toks => !toks.contains (chainMemberToken e.name) then
    results.map (pushStep ⟨e.name, 0, "", true⟩)
  else if e.name = HyPEEnricher.name then
    match e with
    | .hype h => results.mapIdx (hypeStep h src ctxs)
    | _ => results
  else
    match e.enrichBatch ctxs with
    | .error what => results.map (pushStep ⟨e.name, 1, what, false⟩)
    | .ok batch => mergeBatch e.name results batch

def enrichChunks (c : EnricherChain) (ctxs : List ChunkContext) (src : Sources) (filter : Option (List String)) :
    List ChunkChainResult :=
  c.enrichers.foldl (runEnricher ctxs src filter) (ctxs.map fun _ => {})

/-! ## What the contextual fields of a result say -/

variable {ctxs : List ChunkContext} {src : Sources} {filter : Option (List String)} {results : List ChunkChainResult}
  {e : Enricher} {P Q : EnrichResult → Prop}

theorem mergeBatch_forall {name : String} {batch : List EnrichResult} (hresults : ∀ r ∈ results, P r.merged)
    (hPQ : ∀ m, P m → Q m) (hmerge : ∀ step ∈ batch, ∀ m, P m → Q (merge m step)) :
    ∀ r ∈ mergeBatch name results batch, Q r.merged := by
  induction results generalizing batch with
  | nil => simp [mergeBatch]
  | cons r rs ih =>
    have hrs : ∀ r' ∈ rs, P r'.merged := fun r' h => hresults r' (by simp [h])
    rcases batch with - | ⟨step, steps⟩
    · intro r' hr'
      exact hPQ _ (hresults r' hr')
    · intro r' hr'
      rcases List.mem_cons.mp hr' with rfl | htail
      · exact hmerge step (by simp) _ (hresults r (by simp))
      · exact ih hrs (fun s hs => hmerge s (by simp [hs])) r' htail

/-- A member leaves the results of the chunks as they are but for what it merges into them. -/
theorem runEnricher_forall (hresults : ∀ r ∈ results, P r.merged) (hPQ : ∀ m, P m → Q m)
    (hmerge : ∀ batch, e.enrichBatch ctxs = .ok batch → ∀ step ∈ batch, ∀ m, P m → Q (merge m step)) :
    ∀ r ∈ runEnricher ctxs src filter results e, Q r.merged := by
  have hpush : ∀ o, ∀ r ∈ results.map (pushStep o), Q r.merged := by
    intro o r hr
    obtain ⟨r₀, hr₀, rfl⟩ := List.mem_map.mp hr
    exact hPQ _ (hresults r₀ hr₀)
  unfold runEnricher
  split
  · exact hpush _
  · split
    · exact hpush _
    · split
      · split
        · intro r hr
          obtain ⟨i, hi, rfl⟩ := List.mem_mapIdx.mp hr
          have hmerged := hPQ _ (hresults _ (List.getElem_mem hi))
          unfold hypeStep
          dsimp only
          split
          · exact hmerged
          · exact hmerged
        · exact fun r hr => hPQ _ (hresults r hr)
      · split
        · exact hpush _
        · rename_i batch hbatch
          exact mergeBatch_forall hresults hPQ (hmerge batch hbatch)

/-- No contextual member has contributed. -/
def Blank (m : EnrichResult) : Prop := m.contextualizedEmbedding = none ∧ m.contextualizedStatus = 0

/-- A contextual vector comes with the status of a generated one. -/
def Sound (m : EnrichResult) : Prop := m.contextualizedEmbedding.isSome → m.contextualizedStatus = 1

theorem Blank.sound {m : EnrichResult} (h : Blank m) : Sound m := by
  intro hv
  rw [h.1] at hv
  exact absurd hv (by simp)

theorem enrich_sound (e : ContextualRetrievalEnricher) (i : Nat) (ctx : ChunkContext) : Sound (e.enrich i ctx) := by
  unfold Sound ContextualRetrievalEnricher.enrich
  dsimp only
  split
  · simp
  · split
    · simp
    · split
      · simp
      · split <;> simp

theorem enrichBatch_blank (he : e.isContextual = false) {batch : List EnrichResult}
    (hbatch : e.enrichBatch ctxs = .ok batch) : ∀ step ∈ batch, Blank step := by
  rcases e with h | h | h
  · unfold Enricher.enrichBatch at hbatch
    dsimp only at hbatch
    rcases hrs : h.enrichBatch ctxs with msg | rs
    · rw [hrs] at hbatch
      cases hbatch
    · rw [hrs] at hbatch
      cases hbatch
      intro step hstep
      obtain ⟨hr, -, rfl⟩ := List.mem_map.mp hstep
      exact ⟨rfl, rfl⟩
  · exact absurd he (by simp [Enricher.isContextual])
  · cases hbatch
    simp

theorem merge_blank {m step : EnrichResult} (hs : Blank step) :
    (merge m step).contextualizedEmbedding = m.contextualizedEmbedding ∧
      (merge m step).contextualizedStatus = m.contextualizedStatus := by
  simp [merge, hs.1, hs.2]

theorem merge_sound {m step : EnrichResult} (hm : Blank m) (hs : Sound step) : Sound (merge m step) := by
  unfold Sound merge
  intro hv
  by_cases hstep : step.contextualizedEmbedding.isSome = true
  · simp [hs hstep]
  · rw [if_neg hstep, hm.1] at hv
    exact absurd hv (by simp)

theorem foldl_runEnricher_keeps {es : List Enricher} (hes : ∀ e ∈ es, e.isContextual = false)
    (hP : ∀ m m', m'.contextualizedEmbedding = m.contextualizedEmbedding →
      m'.contextualizedStatus = m.contextualizedStatus → P m → P m')
    (hresults : ∀ r ∈ results, P r.merged) : ∀ r ∈ es.foldl (runEnricher ctxs src filter) results, P r.merged := by
  induction es generalizing results with
  | nil => exact hresults
  | cons e es ih =>
    rw [List.foldl_cons]
    apply ih (fun e' h => hes e' (by simp [h]))
    refine runEnricher_forall hresults (fun _ h => h) ?_
    intro batch hbatch step hstep m hm
    obtain ⟨hv, hst⟩ := merge_blank (m := m) (enrichBatch_blank (hes e (by simp)) hbatch step hstep)
    exact hP _ _ hv hst hm

/-- The results of a chain that start blank end sound: the one contextual member sets vector and status together, and no
other member touches them. -/
theorem foldl_runEnricher_sound {es : List Enricher} (hone : es.countP Enricher.isContextual ≤ 1)
    (hresults : ∀ r ∈ results, Blank r.merged) :
    ∀ r ∈ es.foldl (runEnricher ctxs src filter) results, Sound r.merged := by
  induction es generalizing results with
  | nil => exact fun r hr => (hresults r hr).sound
  | cons e es ih =>
    rw [List.foldl_cons]
    rw [List.countP_cons] at hone
    by_cases he : e.isContextual = true
    · rw [if_pos he] at hone
      have hnone : ∀ e' ∈ es, e'.isContextual = false := by
        intro e' he'
        by_contra hc
        have hpos := List.countP_pos_iff.mpr ⟨e', he', by simpa using hc⟩
        omega
      refine foldl_runEnricher_keeps hnone ?_ (runEnricher_forall hresults (fun _ h => h.sound) ?_)
      · intro m m' hv hst hm hsome
        rw [hst]
        exact hm (hv ▸ hsome)
      · intro batch hbatch step hstep m hm
        rcases e with h | h | h
        · exact absurd he (by simp [Enricher.isContextual])
        · cases hbatch
          obtain ⟨i, hi, rfl⟩ := List.mem_mapIdx.mp hstep
          exact merge_sound hm (enrich_sound h i _)
        · exact absurd he (by simp [Enricher.isContextual])
    · rw [if_neg he] at hone
      refine ih hone (runEnricher_forall hresults (fun _ h => h) ?_)
      intro batch hbatch step hstep m hm
      obtain ⟨hv, hst⟩ := merge_blank (m := m) (enrichBatch_blank (by simpa using he) hbatch step hstep)
      exact ⟨hv.trans hm.1, hst.trans hm.2⟩

theorem enrichChunks_sound (c : EnricherChain) {r : ChunkChainResult} (hr : r ∈ c.enrichChunks ctxs src filter) :
    Sound r.merged := by
  refine foldl_runEnricher_sound c.oneContextual ?_ r hr
  intro r₀ hr₀
  obtain ⟨_, -, rfl⟩ := List.mem_map.mp hr₀
  exact ⟨rfl, rfl⟩

/-! ## One result for each chunk -/

theorem length_mergeBatch (name : String) (results : List ChunkChainResult) (batch : List EnrichResult) :
    (mergeBatch name results batch).length = results.length := by
  induction results generalizing batch with
  | nil => simp [mergeBatch]
  | cons r rs ih =>
    rcases batch with - | ⟨step, steps⟩
    · rfl
    · rw [mergeBatch, List.length_cons, ih, List.length_cons]

theorem length_runEnricher (results : List ChunkChainResult) (e : Enricher) :
    (runEnricher ctxs src filter results e).length = results.length := by
  unfold runEnricher
  split
  · exact List.length_map ..
  · split
    · exact List.length_map ..
    · split
      · split
        · exact List.length_mapIdx
        · rfl
      · split
        · exact List.length_map ..
        · exact length_mergeBatch ..

theorem enrichChunks_length (c : EnricherChain) : (c.enrichChunks ctxs src filter).length = ctxs.length := by
  have hfold : ∀ (es : List Enricher) (results : List ChunkChainResult),
      (es.foldl (runEnricher ctxs src filter) results).length = results.length := by
    intro es
    induction es with
    | nil => exact fun _ => rfl
    | cons e es ih =>
      intro results
      rw [List.foldl_cons, ih, length_runEnricher]
  unfold enrichChunks
  rw [hfold, List.length_map]

/-- The questions at a position name the chunk at that position. -/
def HypeFrom (src : Sources) (questions : List (List HypeQuestion)) : Prop :=
  ∀ (i : Nat) (qs : List HypeQuestion), questions[i]? = some qs → ∀ q ∈ qs, q.sourceChildId = src.childIds[i]?.getD ""

theorem hypeQuestions_mergeBatch (name : String) (results : List ChunkChainResult) (batch : List EnrichResult) :
    (mergeBatch name results batch).map ChunkChainResult.hypeQuestions = results.map ChunkChainResult.hypeQuestions := by
  induction results generalizing batch with
  | nil => simp [mergeBatch]
  | cons r rs ih =>
    rcases batch with - | ⟨step, steps⟩
    · rfl
    · rw [mergeBatch, List.map_cons, ih, List.map_cons]
      rfl

theorem generateHypeQuestions_source {e : HyPEEnricher} {i : Nat} {chunkText parentText childId parentId : String}
    {qs : List HypeQuestion} (h : e.generateHypeQuestions i chunkText parentText childId parentId = .ok qs) :
    ∀ q ∈ qs, q.sourceChildId = childId := by
  unfold HyPEEnricher.generateHypeQuestions at h
  split at h
  · cases h
  · split at h
    · cases h
    · split at h
      · cases h
      · cases h
        intro q hq
        obtain ⟨k, hk, rfl⟩ := List.mem_mapIdx.mp hq
        rfl

theorem hypeFrom_runEnricher (h : HypeFrom src (results.map ChunkChainResult.hypeQuestions)) :
    HypeFrom src ((runEnricher ctxs src filter results e).map ChunkChainResult.hypeQuestions) := by
  have hpush : ∀ o, (results.map (pushStep o)).map ChunkChainResult.hypeQuestions =
      results.map ChunkChainResult.hypeQuestions := by
    intro o
    rw [List.map_map]
    rfl
  unfold runEnricher
  split
  · rw [hpush]
    exact h
  · split
    · rw [hpush]
      exact h
    · split
      · split
        · rename_i e'
          intro i qs hqs q hq
          rw [List.getElem?_map, List.getElem?_mapIdx] at hqs
          rcases hr : results[i]? with - | r
          · rw [hr] at hqs
            cases hqs
          · rw [hr] at hqs
            cases hqs
            have hold := h i r.hypeQuestions (by rw [List.getElem?_map, hr]; rfl)
            unfold hypeStep at hq
            dsimp only at hq
            split at hq
            · rename_i new hnew
              rcases List.mem_append.mp hq with hin | hin
              · exact hold q hin
              · exact generateHypeQuestions_source hnew q hin
            · exact hold q hq
        · exact h
      · split
        · rw [hpush]
          exact h
        · rw [hypeQuestions_mergeBatch]
          exact h

theorem enrichChunks_hypeFrom (c : EnricherChain) :
    HypeFrom src ((c.enrichChunks ctxs src filter).map ChunkChainResult.hypeQuestions) := by
  have hfold : ∀ (es : List Enricher) (results : List ChunkChainResult),
      HypeFrom src (results.map ChunkChainResult.hypeQuestions) →
        HypeFrom src ((es.foldl (runEnricher ctxs src filter) results).map ChunkChainResult.hypeQuestions) := by
    intro es
    induction es with
    | nil => exact fun _ h => h
    | cons e es ih => exact fun results h => ih _ (hypeFrom_runEnricher h)
  refine hfold c.enrichers _ ?_
  intro i qs hqs q hq
  rw [List.getElem?_map, List.getElem?_map] at hqs
  rcases hctx : ctxs[i]? with - | ctx
  · rw [hctx] at hqs
    cases hqs
  · rw [hctx] at hqs
    cases hqs
    exact absurd hq (by simp)

end EnricherChain
end Cortrix.Spc
