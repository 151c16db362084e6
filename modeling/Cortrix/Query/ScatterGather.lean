import Cortrix.Common.Ints
import Cortrix.Lib.Grouping
import Cortrix.Query.ContentHash
import Mathlib.Data.List.Pairwise

/-!
# Gathering the results of several namespaces

The reduce step of a cross-namespace query: collect the chunks of the namespaces that answered, sort, collapse copies
of one content, cut to `top_k` and apply the parent-text budget.

* `gather_lossless_iff` : a gathering is, and without ties the order of the namespaces does not matter, when an `int`
  counts the copies; `copies_not_counted`.
-/

namespace Cortrix.Query
open Lib Cortrix.Store

/-! ## Scores -/

/-- A `float`, by its bits. -/
structure Float32Bits where
  bits : UInt32
  deriving DecidableEq

namespace Float32Bits

def magnitude (f : Float32Bits) : Nat := f.bits.toNat % 2 ^ 31

def isNaN (f : Float32Bits) : Bool := decide (0x7F800000 < f.magnitude)

/-- The place of a number in the order of numbers; the two zeros share theirs. -/
def place (f : Float32Bits) : Int := if f.bits.toNat < 2 ^ 31 then f.magnitude else -(f.magnitude : Int)

def gt (a b : Float32Bits) : Bool := !a.isNaN && !b.isNaN && decide (b.place < a.place)

def eq (a b : Float32Bits) : Bool := !a.isNaN && !b.isNaN && decide (a.place = b.place)

end Float32Bits

/-! ## Chunks and results -/

structure ScoreSignals where
  enrichedScore : Option Float32Bits := none
  semanticScore : Option Float32Bits := none
  deriving DecidableEq

structure RankedChunk where
  childId : String
  chunkText : Bytes
  parentText : Bytes := []
  score : Float32Bits
  rerankScore : Float32Bits
  scoreSignals : ScoreSignals := {}
  metadata : List (String × String) := []
  parentId : String := ""
  evidenceKind : String := ""

structure ResultItem where
  childId : String
  parentId : String
  namespaceId : String
  content : Bytes
  parentContent : Bytes
  score : Float32Bits
  rerankScore : Float32Bits
  scoreSignals : ScoreSignals
  contentHash : String
  metadata : List (String × String)
  evidenceKind : String
  deriving DecidableEq

/-- One namespace's answer; an empty error code is a success. -/
structure NamespaceQueryResult where
  namespaceId : String
  chunks : List RankedChunk := []
  latencyMs : Int := 0
  errorCode : String := ""
  errorCategory : String := ""
  retryable : Bool := false
  retryAfterMs : Int := 0
  structuredData : List (String × String) := []
  docChildBlockTotals : List (String × Int) := []

structure NamespaceFailure where
  namespaceId : String
  errorCode : String
  retryable : Bool
  category : String
  retryAfterMs : Option Int
  message : String
  structuredData : List (String × String)

structure DedupSourceNs where
  namespaceId : String
  score : Float32Bits
  rerankScore : Float32Bits

structure DeduplicatedChunkInfo where
  contentHash : String
  primaryNamespace : String
  namespaces : List DedupSourceNs

structure DocumentCoverageInfo where
  namespaceId : String
  docId : String
  sourcePath : String
  returnedChildBlocks : Int
  totalChildBlocks : Option Int

structure Warning where
  code : String
  reason : String
  category : String

structure CrossNsMeta where
  namespacesQueried : List String := []
  namespacesSucceeded : List String := []
  namespacesFailed : List NamespaceFailure := []
  latencyMs : Int := 0
  deduplicatedChunks : List DeduplicatedChunkInfo := []
  deduplicatedChunksCount : Int := 0
  warnings : List Warning := []
  documentCoverage : List DocumentCoverageInfo := []
  docChildBlockTotals : List ((String × String) × Int) := []

structure CrossNsResponse where
  results : List ResultItem := []
  info : CrossNsMeta := {}
  /-- The message of the overall timeout. -/
  error : Option String := none

def toResultItem (rc : RankedChunk) (nsId contentHash : String) : ResultItem where
  childId := rc.childId
  parentId := rc.parentId
  namespaceId := nsId
  content := rc.chunkText
  parentContent := rc.parentText
  score := rc.score
  rerankScore := rc.rerankScore
  scoreSignals := rc.scoreSignals
  contentHash := contentHash
  metadata := rc.metadata
  evidenceKind := rc.evidenceKind

/-! ## The passes over the gathered list -/

/-- The comparator of the sort: the higher score first, among equal scores the higher rerank score. -/
def before (a b : ResultItem) : Bool :=
  if !a.score.eq b.score then a.score.gt b.score else a.rerankScore.gt b.rerankScore

/-- `std::stable_sort` with it. -/
def sortItems (items : List ResultItem) : List ResultItem := items.mergeSort fun a b => !before b a

/-- Items without a hash are never grouped. -/
def hashKey? (item : ResultItem) : Option String := if item.contentHash = "" then none else some item.contentHash

/-- The copy of a group that is kept: the highest score, the earliest among equals. -/
def primary (g : Bucket ResultItem) : ResultItem :=
  g.rest.foldl (fun p x => if x.score.gt p.score then x else p) g.first

def dedupInfo (g : Bucket ResultItem) : DeduplicatedChunkInfo where
  contentHash := (primary g).contentHash
  primaryNamespace := (primary g).namespaceId
  namespaces := g.all.map fun x => ⟨x.namespaceId, x.score, x.rerankScore⟩

/-- `collapsed += static_cast<int>(group.size()) - 1` over the groups of several. -/
def collapsed (groups : List (Bucket ResultItem)) : Int :=
  groups.foldl (fun n g => toInt (n + (toInt g.all.length - 1))) 0

/-- `DedupeByContentHash`: the kept items, the notes on the groups of several and the number of copies dropped. -/
def dedupeByContentHash (items : List ResultItem) : List ResultItem × List DeduplicatedChunkInfo × Int :=
  let groups := Bucket.buckets hashKey? items
  let several := groups.filter fun g => !g.rest.isEmpty
  (groups.map primary, several.map dedupInfo, collapsed several)

def expansionKeys : List String := ["parent_token_count", "parent_byte_start", "parent_byte_end"]

/-- The keys that describe an expanded span go where its text goes. -/
def dropExpansionMetadata (item : ResultItem) : ResultItem :=
  { item with metadata := item.metadata.filter fun kv => !expansionKeys.contains kv.1 }

/-- `EnforceParentExpansionBudget` over the rest of the results, with what was kept and spent so far. -/
def enforceBudget (depth : Nat) (maxBytes : Int) : Nat → Int → Bool → List ResultItem → List ResultItem
  | _, _, _, [] => []
  | kept, used, spent, item :: items =>
    if item.parentContent.isEmpty then
      dropExpansionMetadata item :: enforceBudget depth maxBytes kept used spent items
    else
      let cost : Int := item.parentContent.length
      let overDepth := decide (depth ≤ kept)
      let overBytes := decide (0 < maxBytes ∧ maxBytes < used + cost)
      if spent || overDepth || overBytes then
        dropExpansionMetadata { item with parentContent := [] } ::
          enforceBudget depth maxBytes kept used (spent || overBytes) items
      else item :: enforceBudget depth maxBytes (kept + 1) (used + cost) spent items

def enforceParentExpansionBudget (items : List ResultItem) (expandTopK maxBytes : Int) : List ResultItem :=
  enforceBudget (if 0 < expandTopK then expandTopK.toNat else 0) maxBytes 0 0 false items

/-- One result in `FinalizeDocumentCoverage`: its document's entry, opened at the first result of the document. -/
def coverItem (totals : List ((String × String) × Int)) (cov : List DocumentCoverageInfo) (item : ResultItem) :
    List DocumentCoverageInfo :=
  match item.metadata.lookup "doc_id" with
  | none | some "" => cov
  | some docId =>
    let cov := if cov.any fun c => c.namespaceId == item.namespaceId && c.docId == docId then cov else
      cov ++ [{ namespaceId := item.namespaceId, docId, sourcePath := (item.metadata.lookup "source_path").getD "",
                returnedChildBlocks := 0, totalChildBlocks := totals.lookup (item.namespaceId, docId) }]
    if item.evidenceKind = "chunk" then
      cov.map fun c =>
        if c.namespaceId = item.namespaceId ∧ c.docId = docId then
          { c with returnedChildBlocks := toInt (c.returnedChildBlocks + 1) }
        else c
    else cov

def finalizeDocumentCoverage (items : List ResultItem) (totals : List ((String × String) × Int)) :
    List DocumentCoverageInfo :=
  items.foldl (coverItem totals) []

/-! ## GatherAndRerank -/

/-- The items of the namespaces that answered, in the order of the results. -/
def collect (sha256 : Bytes → Digest) (results : List NamespaceQueryResult) : List ResultItem :=
  (results.filter fun r => r.errorCode = "").flatMap fun r =>
    r.chunks.map fun rc => toResultItem rc r.namespaceId (contentHashOfContent sha256 rc.chunkText)

def toFailure (r : NamespaceQueryResult) : NamespaceFailure where
  namespaceId := r.namespaceId
  errorCode := r.errorCode
  retryable := r.retryable
  category := r.errorCategory
  retryAfterMs := if r.retryable && decide (0 < r.retryAfterMs) then some r.retryAfterMs else none
  message := r.errorCode
  structuredData := r.structuredData

/-- `map::emplace`: a key that is there keeps its value. -/
def emplace (m : List ((String × String) × Int)) (k : String × String) (v : Int) : List ((String × String) × Int) :=
  if m.any fun kv => kv.1 == k then m else m ++ [(k, v)]

/-- The items before the cut to `top_k`: sorted, one of each content. -/
def ranked (sha256 : Bytes → Digest) (results : List NamespaceQueryResult) :
    List ResultItem × List DeduplicatedChunkInfo × Int :=
  dedupeByContentHash (sortItems (collect sha256 results))

def cutAt (topK : Int) : Nat := if topK < 1 then 1 else topK.toNat

/-- `if (static_cast<int>(items.size()) > k) items.resize(k)`. -/
def cutTo {α : Type} (k : Nat) (items : List α) : List α :=
  if (k : Int) < toInt items.length then items.take k else items

def gatherAndRerank (sha256 : Bytes → Digest) (results : List NamespaceQueryResult) (queriedOrder : List String)
    (topK : Int) (rerank scatterTimedOut : Bool) (parentExpandTopK parentMaxBytes : Int) : CrossNsResponse :=
  let succeeded := results.filter fun r => r.errorCode = ""
  let (items, notes, collapsed) := ranked sha256 results
  let kept := enforceParentExpansionBudget (cutTo (cutAt topK) items) parentExpandTopK parentMaxBytes
  let totals := succeeded.foldl
    (fun m r => r.docChildBlockTotals.foldl (fun m kv => emplace m (r.namespaceId, kv.1) kv.2) m) []
  { results := kept
    info :=
      { namespacesQueried := queriedOrder
        namespacesSucceeded := succeeded.map (·.namespaceId)
        namespacesFailed := (results.filter fun r => r.errorCode ≠ "").map toFailure
        latencyMs := results.foldl (fun m r => max m r.latencyMs) 0
        deduplicatedChunks := notes
        deduplicatedChunksCount := collapsed
        warnings := if rerank then [] else [⟨"CX_WARN_RERANK_DISABLED", "rerank_disabled", "permanent"⟩]
        documentCoverage := finalizeDocumentCoverage kept totals
        docChildBlockTotals := totals }
    error := if scatterTimedOut then
        some "Cross-NS scatter exceeded the overall timeout; returning partial results"
      else none }

/-! ## The order of the results -/

def ResultItem.hasNumbers (a : ResultItem) : Prop := a.score.isNaN = false ∧ a.rerankScore.isNaN = false

/-- `(score, rerank_score)` of `a` is at least that of `b`. -/
def RanksAtLeast (a b : ResultItem) : Prop :=
  b.score.place < a.score.place ∨ a.score.place = b.score.place ∧ b.rerankScore.place ≤ a.rerankScore.place

def Ties (a b : ResultItem) : Prop := a.score.place = b.score.place ∧ a.rerankScore.place = b.rerankScore.place

instance (a b : ResultItem) : Decidable (RanksAtLeast a b) := inferInstanceAs (Decidable (_ ∨ _))

instance (a b : ResultItem) : Decidable (Ties a b) := inferInstanceAs (Decidable (_ ∧ _))

variable {a b : ResultItem} {items : List ResultItem} (sha256 : Bytes → Digest)

theorem not_before_iff (ha : a.hasNumbers) (hb : b.hasNumbers) : (!before b a) = decide (RanksAtLeast a b) := by
  obtain ⟨has, har⟩ := ha
  obtain ⟨hbs, hbr⟩ := hb
  unfold before RanksAtLeast Float32Bits.eq Float32Bits.gt
  simp only [has, har, hbs, hbr, Bool.not_false, Bool.true_and]
  by_cases heq : b.score.place = a.score.place
  · simp only [heq, decide_true, Bool.not_true, Bool.false_eq_true, if_false, ← decide_not, Int.lt_irrefl, false_or,
      true_and, Int.not_lt]
  · simp only [heq, decide_false, Bool.not_false, if_true, ← decide_not]
    apply decide_eq_decide.mpr
    omega

theorem ranksAtLeast_trans {c : ResultItem} (hab : RanksAtLeast a b) (hbc : RanksAtLeast b c) : RanksAtLeast a c := by
  unfold RanksAtLeast at *
  omega

theorem ranksAtLeast_total (a b : ResultItem) : RanksAtLeast a b ∨ RanksAtLeast b a := by
  unfold RanksAtLeast
  omega

theorem RanksAtLeast.ties (hab : RanksAtLeast a b) (hba : RanksAtLeast b a) : Ties a b := by
  unfold RanksAtLeast at hab hba
  unfold Ties
  omega

theorem sortItems_eq (h : ∀ a ∈ items, a.hasNumbers) :
    sortItems items = items.mergeSort fun a b => decide (RanksAtLeast a b) := by
  have hmap := List.map_mergeSort (r := fun a b => !before b a) (s := fun a b => decide (RanksAtLeast a b)) (f := id)
    (l := items) fun a ha b hb => not_before_iff (h a ha) (h b hb)
  rwa [List.map_id, List.map_id] at hmap

theorem sortItems_perm (items : List ResultItem) : (sortItems items).Perm items := List.mergeSort_perm items _

theorem sortItems_pairwise (h : ∀ a ∈ items, a.hasNumbers) : (sortItems items).Pairwise RanksAtLeast := by
  rw [sortItems_eq h]
  have hsorted : (items.mergeSort fun a b => decide (RanksAtLeast a b)).Pairwise
      fun a b => decide (RanksAtLeast a b) = true := by
    apply List.pairwise_mergeSort
    · intro a b c hab hbc
      exact decide_eq_true (ranksAtLeast_trans (of_decide_eq_true hab) (of_decide_eq_true hbc))
    · intro a b
      simpa using ranksAtLeast_total a b
  exact hsorted.imp fun hab => of_decide_eq_true hab

theorem sortItems_eq_of_perm {items' : List ResultItem} (hperm : items'.Perm items) (hnum : ∀ a ∈ items, a.hasNumbers)
    (hties : items.Pairwise fun a b => ¬ Ties a b) : sortItems items' = sortItems items := by
  have hnum' : ∀ a ∈ items', a.hasNumbers := fun a ha => hnum a (hperm.mem_iff.mp ha)
  have hsame : (sortItems items').Perm (sortItems items) :=
    (sortItems_perm items').trans (hperm.trans (sortItems_perm items).symm)
  have hsym : Std.Symm fun a b : ResultItem => ¬ Ties a b := ⟨fun a b hab hba => hab ⟨hba.1.symm, hba.2.symm⟩⟩
  refine hsame.eq_of_pairwise ?_ (sortItems_pairwise hnum') (sortItems_pairwise hnum)
  intro a b ha hb hab hba
  by_contra hne
  have hmem := (sortItems_perm items').mem_iff.mp ha
  exact hties.forall (hperm.mem_iff.mp hmem) ((sortItems_perm items).mem_iff.mp hb) hne (hab.ties hba)

/-! ## What deduplication keeps -/

theorem primary_eq_first {g : Bucket ResultItem} (h : ∀ x ∈ g.rest, RanksAtLeast g.first x) :
    primary g = g.first := by
  unfold primary
  have hfold : ∀ xs : List ResultItem, (∀ x ∈ xs, RanksAtLeast g.first x) →
      xs.foldl (fun p x => if x.score.gt p.score then x else p) g.first = g.first := by
    intro xs
    induction xs with
    | nil => exact fun _ => rfl
    | cons x xs ih =>
      intro hxs
      have hx : x.score.gt g.first.score = false := by
        have hrank := hxs x (by simp)
        unfold RanksAtLeast at hrank
        unfold Float32Bits.gt
        rw [Bool.and_eq_false_iff]
        exact .inr (decide_eq_false (by omega))
      rw [List.foldl_cons, hx, if_neg (by simp)]
      exact ih fun y hy => hxs y (by simp [hy])
  exact hfold g.rest h

theorem hashKey?_eq_none {item : ResultItem} : hashKey? item = none ↔ item.contentHash = "" := by
  unfold hashKey?
  split <;> simp_all

theorem hashKey?_eq (h : a.contentHash = b.contentHash) : hashKey? a = hashKey? b := by
  unfold hashKey?
  rw [h]

theorem contentHash_eq_of_hashKey? (h : hashKey? a = hashKey? b) (hsome : (hashKey? a).isSome) :
    a.contentHash = b.contentHash ∧ a.contentHash ≠ "" := by
  unfold hashKey? at h hsome
  split at hsome
  · exact absurd hsome (by simp)
  · rename_i hne
    rw [if_neg hne] at h
    split at h
    · exact absurd h (by simp)
    · exact ⟨Option.some.inj h, hne⟩

section
variable (hsorted : items.Pairwise RanksAtLeast)
include hsorted

theorem bucket_rest {g : Bucket ResultItem} (hg : g ∈ Bucket.buckets hashKey? items) {x : ResultItem} (hx : x ∈ g.rest) :
    x.contentHash = g.first.contentHash ∧ x.contentHash ≠ "" ∧ RanksAtLeast g.first x := by
  obtain ⟨hkey, hsome, hrank⟩ := Bucket.buckets_rest hsorted hg hx
  obtain ⟨heq, hne⟩ := contentHash_eq_of_hashKey? hkey hsome
  exact ⟨heq, hne, hrank⟩

theorem dedupe_fst : (dedupeByContentHash items).1 = (Bucket.buckets hashKey? items).map Bucket.first := by
  show (Bucket.buckets hashKey? items).map primary = _
  apply List.map_congr_left
  intro g hg
  exact primary_eq_first fun x hx => (bucket_rest hsorted hg hx).2.2

theorem dedupe_pairwise : (dedupeByContentHash items).1.Pairwise RanksAtLeast := by
  rw [dedupe_fst hsorted]
  exact hsorted.sublist (Bucket.buckets_firsts_sublist items)

theorem dedupe_distinct :
    (dedupeByContentHash items).1.Pairwise fun a b => a.contentHash = b.contentHash → a.contentHash = "" := by
  rw [dedupe_fst hsorted]
  refine (Bucket.buckets_firsts_keys items).imp fun {a b} hkeys heq => ?_
  have hnone := hkeys (hashKey?_eq heq)
  rw [heq]
  exact hashKey?_eq_none.mp hnone

end

/-! ## The budget touches parent texts only -/

def bare (item : ResultItem) : ResultItem := dropExpansionMetadata { item with parentContent := [] }

theorem bare_dropExpansionMetadata (item : ResultItem) : bare (dropExpansionMetadata item) = bare item := by
  unfold bare dropExpansionMetadata
  simp only [List.filter_filter, Bool.and_self]

theorem bare_clear (item : ResultItem) : bare { item with parentContent := [] } = bare item := rfl

theorem enforceBudget_bare (depth : Nat) (maxBytes : Int) (kept : Nat) (used : Int) (spent : Bool)
    (items : List ResultItem) : (enforceBudget depth maxBytes kept used spent items).map bare = items.map bare := by
  induction items generalizing kept used spent with
  | nil => rfl
  | cons item items ih =>
    rw [enforceBudget]
    dsimp only
    split
    · rw [List.map_cons, List.map_cons, ih, bare_dropExpansionMetadata]
    · split
      · rw [List.map_cons, List.map_cons, ih, bare_dropExpansionMetadata, bare_clear]
      · rw [List.map_cons, List.map_cons, ih]

theorem enforceParentExpansionBudget_bare (items : List ResultItem) (expandTopK maxBytes : Int) :
    (enforceParentExpansionBudget items expandTopK maxBytes).map bare = items.map bare := enforceBudget_bare ..

theorem pairwise_of_bare {R : ResultItem → ResultItem → Prop} (hR : ∀ a b, R (bare a) (bare b) ↔ R a b)
    {items' : List ResultItem} (heq : items'.map bare = items.map bare) (h : items.Pairwise R) : items'.Pairwise R := by
  have hmap : (items.map bare).Pairwise R := List.pairwise_map.mpr (h.imp fun {a b} hab => (hR a b).mpr hab)
  rw [← heq] at hmap
  exact (List.pairwise_map.mp hmap).imp fun {a b} hab => (hR a b).mp hab

/-! ## The gathering -/

/-- The chunks of the namespaces that answered, with their namespace. -/
def answered (results : List NamespaceQueryResult) : List (String × RankedChunk) :=
  results.flatMap fun r => if r.errorCode = "" then r.chunks.map fun c => (r.namespaceId, c) else []

def itemOf (sha256 : Bytes → Digest) (p : String × RankedChunk) : ResultItem :=
  toResultItem p.2 p.1 (contentHashOfContent sha256 p.2.chunkText)

/-- The chunks fall into buckets of one content, the best of each in front; the fronts stand in their order, no two of one
content, and the results are the fronts up to the cut. -/
structure Accounted (sha256 : Bytes → Digest) (results : List NamespaceQueryResult) (topK : Int) (resp : CrossNsResponse)
    (buckets : List (Bucket ResultItem)) : Prop where
  chunks : (buckets.flatMap Bucket.all).Perm ((answered results).map (itemOf sha256))
  behind : ∀ g ∈ buckets, ∀ x ∈ g.rest,
    x.contentHash = g.first.contentHash ∧ x.contentHash ≠ "" ∧ RanksAtLeast g.first x
  ordered : (buckets.map Bucket.first).Pairwise RanksAtLeast
  distinct : (buckets.map Bucket.first).Pairwise fun a b => a.contentHash = b.contentHash → a.contentHash = ""
  kept : ∃ n, (n = cutAt topK ∨ n = buckets.length ∧ 2 ^ 31 ≤ n) ∧
    resp.results.map bare = ((buckets.map Bucket.first).take n).map bare
  counted : resp.info.deduplicatedChunksCount + buckets.length = (answered results).length

/-- What a gathering does not lose: each namespace is reported once; the results are in order, no two of one content;
and every chunk is accounted for. -/
structure Lossless (sha256 : Bytes → Digest) (results : List NamespaceQueryResult) (queriedOrder : List String)
    (topK : Int) (resp : CrossNsResponse) : Prop where
  reported : (resp.info.namespacesSucceeded ++ resp.info.namespacesFailed.map (·.namespaceId)).Perm queriedOrder
  ordered : resp.results.Pairwise RanksAtLeast
  distinct : resp.results.Pairwise fun a b => a.contentHash = b.contentHash → a.contentHash = ""
  accounted : ∃ buckets, Accounted sha256 results topK resp buckets

/-- The chunks that are copies of another: of each content hash, all but one. -/
def copies (sha256 : Bytes → Digest) (results : List NamespaceQueryResult) : Nat :=
  let hashes := ((answered results).map fun p => contentHashOfContent sha256 p.2.chunkText).filter (· ≠ "")
  hashes.length - hashes.dedup.length

theorem collect_eq (results : List NamespaceQueryResult) :
    collect sha256 results = (answered results).map (itemOf sha256) := by
  unfold collect answered
  induction results with
  | nil => rfl
  | cons r rs ih =>
    rw [List.flatMap_cons, List.map_append, ← ih, List.filter_cons]
    by_cases h : r.errorCode = ""
    · rw [if_pos (by simpa using h), if_pos h, List.flatMap_cons, List.map_map]
      rfl
    · rw [if_neg (by simpa using h), if_neg h]
      rfl

theorem filterMap_hashKey? (items : List ResultItem) :
    items.filterMap hashKey? = (items.map (·.contentHash)).filter (· ≠ "") := by
  induction items with
  | nil => rfl
  | cons x xs ih =>
    rw [List.filterMap_cons, List.map_cons, List.filter_cons, ih]
    unfold hashKey?
    by_cases h : x.contentHash = "" <;> simp [h]

theorem copies_add {sha256 : Bytes → Digest} {results : List NamespaceQueryResult} {buckets : List (Bucket ResultItem)}
    (hchunks : (buckets.flatMap Bucket.all).Perm ((answered results).map (itemOf sha256)))
    (hcopies : ∀ g ∈ buckets, ∀ x ∈ g.rest, x.contentHash = g.first.contentHash ∧ x.contentHash ≠ "")
    (hdistinct : (buckets.map Bucket.first).Pairwise fun a b => a.contentHash = b.contentHash → a.contentHash = "") :
    buckets.length + copies sha256 results = (answered results).length := by
  have hrest : ∀ g ∈ buckets, ∀ x ∈ g.rest, hashKey? x = hashKey? g.first ∧ (hashKey? x).isSome := by
    intro g hg x hx
    obtain ⟨heq, hne⟩ := hcopies g hg x hx
    refine ⟨hashKey?_eq heq, ?_⟩
    rw [Option.isSome_iff_ne_none, ne_eq, hashKey?_eq_none]
    exact hne
  have hkeys : (buckets.map Bucket.first).Pairwise fun a b => hashKey? a = hashKey? b → hashKey? b = none := by
    refine hdistinct.imp fun {a b} hab heq => ?_
    by_contra hsome
    rw [← heq] at hsome
    obtain ⟨hhash, hne⟩ := contentHash_eq_of_hashKey? heq (Option.isSome_iff_ne_none.mpr hsome)
    exact hne (hab hhash)
  have hcount := Bucket.length_eq hchunks hrest hkeys
  have hhashes : ((answered results).map (itemOf sha256)).filterMap hashKey? =
      ((answered results).map fun p => contentHashOfContent sha256 p.2.chunkText).filter (· ≠ "") := by
    rw [filterMap_hashKey?, List.map_map]
    rfl
  rw [hhashes, List.length_map] at hcount
  have hle := (List.dedup_sublist
    (((answered results).map fun p => contentHashOfContent sha256 p.2.chunkText).filter (· ≠ ""))).length_le
  unfold copies
  dsimp only
  omega

theorem collapsed_eq (groups : List (Bucket ResultItem)) :
    collapsed (groups.filter fun g => !g.rest.isEmpty) = toInt ((groups.map fun g => g.rest.length).sum : Nat) := by
  have hfold : ∀ (gs : List (Bucket ResultItem)) (n : Int), toInt n = n →
      gs.foldl (fun n g => toInt (n + (toInt g.all.length - 1))) n =
        toInt (n + ((gs.map fun g => g.rest.length).sum : Nat)) := by
    intro gs
    induction gs with
    | nil => intro n hn; simpa using hn.symm
    | cons g gs ih =>
      intro n hn
      have hone : toInt (n + (toInt g.all.length - 1)) = toInt (n + g.rest.length) := by
        rw [show n + (toInt g.all.length - 1) = n - 1 + toInt g.all.length by omega, toInt_add_toInt, Bucket.all,
          List.length_cons]
        congr 1
        omega
      rw [List.foldl_cons, hone, ih _ (toInt_toInt _), toInt_toInt_add,
        List.map_cons, List.sum_cons]
      congr 1
      push_cast
      omega
  have hsum : ((groups.filter fun g => !g.rest.isEmpty).map fun g => g.rest.length).sum =
      (groups.map fun g => g.rest.length).sum := by
    induction groups with
    | nil => rfl
    | cons g gs ih =>
      rw [List.filter_cons]
      rcases hr : g.rest with - | ⟨x, xs⟩ <;> simp [hr, ih]
  unfold collapsed
  rw [hfold _ 0 rfl, hsum, Int.zero_add]

theorem partition_perm (results : List NamespaceQueryResult) :
    (((results.filter fun r => r.errorCode = "").map (·.namespaceId)) ++
      ((results.filter fun r => r.errorCode ≠ "").map toFailure).map (·.namespaceId)).Perm
        (results.map (·.namespaceId)) := by
  rw [List.map_map, show (NamespaceFailure.namespaceId ∘ toFailure) = NamespaceQueryResult.namespaceId from rfl,
    ← List.map_append]
  apply List.Perm.map
  have hperm := List.filter_append_perm (fun r : NamespaceQueryResult => decide (r.errorCode = "")) results
  simpa using hperm

theorem collect_hasNumbers {results : List NamespaceQueryResult}
    (hnum : ∀ r ∈ results, ∀ c ∈ r.chunks, c.score.isNaN = false ∧ c.rerankScore.isNaN = false) :
    ∀ a ∈ collect sha256 results, a.hasNumbers := by
  intro a ha
  obtain ⟨r, hr, ha⟩ := List.mem_flatMap.mp ha
  obtain ⟨c, hc, rfl⟩ := List.mem_map.mp ha
  exact hnum r (List.mem_filter.mp hr).1 c hc

theorem collect_perm {results results' : List NamespaceQueryResult} (h : results'.Perm results) :
    (collect sha256 results').Perm (collect sha256 results) :=
  (h.filter _).flatMap_right _

section
variable {results : List NamespaceQueryResult} (queriedOrder : List String)
  (hnum : ∀ r ∈ results, ∀ c ∈ r.chunks, c.score.isNaN = false ∧ c.rerankScore.isNaN = false)
  (topK : Int) (rerank scatterTimedOut : Bool) (parentExpandTopK parentMaxBytes : Int)

theorem gather_results : (gatherAndRerank sha256 results queriedOrder topK rerank scatterTimedOut parentExpandTopK
    parentMaxBytes).results =
      enforceParentExpansionBudget (cutTo (cutAt topK) (ranked sha256 results).1) parentExpandTopK parentMaxBytes := by
  unfold gatherAndRerank
  rcases ranked sha256 results with ⟨items, notes, n⟩
  dsimp only

theorem cutTo_eq (k : Nat) (items : List ResultItem) :
    ∃ n, (n = k ∨ n = items.length ∧ 2 ^ 31 ≤ n) ∧ cutTo k items = items.take n := by
  unfold cutTo
  split
  · exact ⟨k, .inl rfl, rfl⟩
  · rename_i hle
    by_cases hwide : 2 ^ 31 ≤ items.length
    · exact ⟨items.length, .inr ⟨rfl, hwide⟩, (List.take_length).symm⟩
    · rw [toInt_of_fits (by omega) (by omega)] at hle
      exact ⟨k, .inl rfl, (List.take_of_length_le (by omega)).symm⟩

theorem cutTo_sublist (k : Nat) (items : List ResultItem) : (cutTo k items).Sublist items := by
  unfold cutTo
  split
  · exact List.take_sublist ..
  · exact List.Sublist.refl _

theorem buckets_collect (results : List NamespaceQueryResult) :
    ((Bucket.buckets hashKey? (sortItems (collect sha256 results))).flatMap Bucket.all).Perm (collect sha256 results) :=
  (Bucket.buckets_perm _).trans (sortItems_perm _)

include hnum in
theorem gather_counted :
    (gatherAndRerank sha256 results queriedOrder topK rerank scatterTimedOut parentExpandTopK
      parentMaxBytes).info.deduplicatedChunksCount = toInt (copies sha256 results) := by
  have hsorted := sortItems_pairwise (collect_hasNumbers sha256 hnum)
  have hchunks := buckets_collect sha256 results
  rw [collect_eq] at hchunks hsorted
  have hdistinct := dedupe_distinct hsorted
  rw [dedupe_fst hsorted] at hdistinct
  have heq := copies_add hchunks
    (fun g hg x hx => ⟨(bucket_rest hsorted hg hx).1, (bucket_rest hsorted hg hx).2.1⟩) hdistinct
  have hcount := Bucket.buckets_length hashKey? (sortItems ((answered results).map (itemOf sha256)))
  rw [(sortItems_perm _).length_eq, List.length_map] at hcount
  show collapsed _ = _
  rw [collapsed_eq, collect_eq]
  congr 2
  omega

include hnum in
theorem gather_accounted (hroom : copies sha256 results < 2 ^ 31) :
    Accounted sha256 results topK
      (gatherAndRerank sha256 results queriedOrder topK rerank scatterTimedOut parentExpandTopK parentMaxBytes)
      (Bucket.buckets hashKey? (sortItems (collect sha256 results))) := by
  have hsorted := sortItems_pairwise (collect_hasNumbers sha256 hnum)
  have hchunks := buckets_collect sha256 results
  have hdistinct := dedupe_distinct hsorted
  have hordered := dedupe_pairwise hsorted
  rw [dedupe_fst hsorted] at hdistinct hordered
  have hcopies := fun g hg x hx => bucket_rest hsorted (g := g) hg (x := x) hx
  refine ⟨by rwa [collect_eq sha256 results] at hchunks ⊢, hcopies, hordered, hdistinct, ?_, ?_⟩
  · obtain ⟨n, hn, hcut⟩ := cutTo_eq (cutAt topK) (ranked sha256 results).1
    refine ⟨n, ?_, ?_⟩
    · rwa [show (ranked sha256 results).1 = _ from dedupe_fst hsorted, List.length_map] at hn
    · rw [← dedupe_fst hsorted, gather_results, enforceParentExpansionBudget_bare]
      exact congrArg (List.map bare) hcut
  · rw [collect_eq sha256 results] at hchunks hcopies hdistinct ⊢
    have heq := copies_add hchunks (fun g hg x hx => ⟨(hcopies g hg x hx).1, (hcopies g hg x hx).2.1⟩) hdistinct
    rw [gather_counted sha256 queriedOrder hnum, toInt_of_fits (by omega) (by omega)]
    omega

include hnum in
theorem copies_lt_of_accounted {buckets : List (Bucket ResultItem)}
    (h : Accounted sha256 results topK
      (gatherAndRerank sha256 results queriedOrder topK rerank scatterTimedOut parentExpandTopK parentMaxBytes) buckets) :
    copies sha256 results < 2 ^ 31 := by
  have heq := copies_add h.chunks (fun g hg x hx => ⟨(h.behind g hg x hx).1, (h.behind g hg x hx).2.1⟩) h.distinct
  have hcounted := h.counted
  rw [gather_counted sha256 queriedOrder hnum] at hcounted
  have hfits : toInt (copies sha256 results) = copies sha256 results := by omega
  have := (toInt_eq_iff.mp hfits).2
  omega

end

/-- Every gathering is lossless, and without ties the order of the namespaces does not matter, exactly when the copies
that it collapses can be counted in an `int`. -/
theorem gather_lossless_iff (sha256 : Bytes → Digest) (results : List NamespaceQueryResult) (queriedOrder : List String)
    (hone : results.map (·.namespaceId) = queriedOrder)
    (hnum : ∀ r ∈ results, ∀ c ∈ r.chunks, c.score.isNaN = false ∧ c.rerankScore.isNaN = false)
    (topK : Int) (rerank scatterTimedOut : Bool) (parentExpandTopK parentMaxBytes : Int) :
    (Lossless sha256 results queriedOrder topK
        (gatherAndRerank sha256 results queriedOrder topK rerank scatterTimedOut parentExpandTopK parentMaxBytes) ∧
      ∀ results' queriedOrder', results'.Perm results → ((answered results).map (itemOf sha256)).Pairwise (¬ Ties · ·) →
        (gatherAndRerank sha256 results' queriedOrder' topK rerank scatterTimedOut parentExpandTopK parentMaxBytes).results =
          (gatherAndRerank sha256 results queriedOrder topK rerank scatterTimedOut parentExpandTopK parentMaxBytes).results) ↔
      copies sha256 results < 2 ^ 31 := by
  constructor
  · rintro ⟨⟨-, -, -, buckets, h⟩, -⟩
    exact copies_lt_of_accounted sha256 queriedOrder hnum topK rerank scatterTimedOut parentExpandTopK parentMaxBytes h
  intro hroom
  have hitems := collect_hasNumbers sha256 hnum
  have hsorted := sortItems_pairwise hitems
  have hbare := enforceParentExpansionBudget_bare (cutTo (cutAt topK) (ranked sha256 results).1) parentExpandTopK
    parentMaxBytes
  rw [← gather_results sha256 queriedOrder topK rerank scatterTimedOut] at hbare
  have hcut := cutTo_sublist (cutAt topK) (ranked sha256 results).1
  refine ⟨⟨?_, ?_, ?_, _, gather_accounted sha256 queriedOrder hnum topK rerank scatterTimedOut parentExpandTopK
    parentMaxBytes hroom⟩, ?_⟩
  · rw [← hone]
    exact partition_perm results
  · exact pairwise_of_bare (fun _ _ => Iff.rfl) hbare ((dedupe_pairwise hsorted).sublist hcut)
  · exact pairwise_of_bare (fun _ _ => Iff.rfl) hbare ((dedupe_distinct hsorted).sublist hcut)
  · intro results' queriedOrder' hperm hties
    rw [← collect_eq] at hties
    have hsame := sortItems_eq_of_perm (collect_perm sha256 hperm) hitems hties
    have hranked : ranked sha256 results' = ranked sha256 results := by
      unfold ranked
      rw [hsame]
    rw [gather_results, gather_results, hranked]

def threeNamespaces : List NamespaceQueryResult :=
  [{ namespaceId := "a", chunks := [{ childId := "1", chunkText := [0x61], score := ⟨0x3F000000⟩, rerankScore := ⟨0⟩ }] },
    { namespaceId := "b", chunks := [{ childId := "2", chunkText := [0x61], score := ⟨0x3F800000⟩, rerankScore := ⟨0⟩ }] },
    { namespaceId := "c", errorCode := "CX_ERR_NS_TIMEOUT", retryable := true }]

theorem gather_lossless_iff_threeNamespaces :
    threeNamespaces.map (·.namespaceId) = ["a", "b", "c"] ∧
    Lossless (fun _ => digestOfA) threeNamespaces ["a", "b", "c"] 10
      (gatherAndRerank (fun _ => digestOfA) threeNamespaces ["a", "b", "c"] 10 true false 0 0) ∧
    (gatherAndRerank (fun _ => digestOfA) threeNamespaces.reverse ["c", "b", "a"] 10 true false 0 0).results =
      (gatherAndRerank (fun _ => digestOfA) threeNamespaces ["a", "b", "c"] 10 true false 0 0).results := by
  have h := (gather_lossless_iff (fun _ => digestOfA) threeNamespaces ["a", "b", "c"] rfl (by decide) 10 true false 0
    0).mpr (by decide)
  exact ⟨rfl, h.1, h.2 _ _ (List.reverse_perm _) (by decide)⟩

/-! ## More copies than an `int` counts -/

def copiesOfOne (n : Nat) : List NamespaceQueryResult :=
  [{ namespaceId := "a"
     chunks := List.replicate n { childId := "1", chunkText := [0x61], score := ⟨0x3F000000⟩, rerankScore := ⟨0⟩ } }]

theorem copies_copiesOfOne (n : Nat) (hne : contentHashOfContent sha256 [0x61] ≠ "") :
    copies sha256 (copiesOfOne (n + 1)) = n := by
  unfold copies answered copiesOfOne
  simp only [List.flatMap_singleton, if_true, List.map_replicate, List.filter_replicate, hne, ne_eq,
    not_false_eq_true, decide_true, List.replicate_dedup (Nat.succ_ne_zero n), List.length_replicate,
    List.length_singleton]
  omega

/-- The count of the collapsed copies is not that of the copies. -/
theorem copies_not_counted : (copiesOfOne (2 ^ 31 + 1)).map (·.namespaceId) = ["a"] ∧
    (∀ r ∈ copiesOfOne (2 ^ 31 + 1), ∀ c ∈ r.chunks, c.score.isNaN = false ∧ c.rerankScore.isNaN = false) ∧
    ¬ Lossless (fun _ => digestOfA) (copiesOfOne (2 ^ 31 + 1)) ["a"] 10
      (gatherAndRerank (fun _ => digestOfA) (copiesOfOne (2 ^ 31 + 1)) ["a"] 10 true false 0 0) := by
  have hnum : ∀ r ∈ copiesOfOne (2 ^ 31 + 1), ∀ c ∈ r.chunks, c.score.isNaN = false ∧ c.rerankScore.isNaN = false := by
    intro r hr c hc
    rw [List.mem_singleton.mp hr] at hc
    rw [List.eq_of_mem_replicate hc]
    decide
  refine ⟨rfl, hnum, ?_⟩
  rintro ⟨-, -, -, buckets, h⟩
  have hlt := copies_lt_of_accounted _ _ hnum _ _ _ _ _ h
  rw [copies_copiesOfOne _ _ (by decide)] at hlt
  exact absurd hlt (lt_irrefl _)

end Cortrix.Query
