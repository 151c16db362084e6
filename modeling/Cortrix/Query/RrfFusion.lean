import Cortrix.Lib.Tally
import Mathlib.Algebra.Order.Field.Rat

/-!
# Reciprocal rank fusion of the routes

Every successful route votes for its blocks with `1 / (k + rank)`; the blocks are collected in a hash table and sorted by
the sum of their votes.

* scores are exact; `rows` are the entries of the table in the order in which it is gone through;
* `merge_merged` : every block of a successful route once, with its score, best first;
* `deterministic_iff` : the sort is stable, so the order of the table shows exactly where two scores are equal.
-/

namespace Cortrix.Query.RrfFusion
open Lib

inductive RouteStatus
  | kSuccess | kTimeout | kError | kSkipped
  deriving DecidableEq

structure RouteResultItem where
  block_id : UInt64
  doc_id : String := ""
  chunk_index : Int := 0
  raw_score : Rat := 0

structure RouteResult where
  route_name : String
  status : RouteStatus := .kSkipped
  items : List RouteResultItem := []

structure ScoredBlock where
  block_id : UInt64
  doc_id : String
  chunk_index : Int
  rrf_score : Rat
  hit_routes : UInt8
  vector_score : Rat := 0
  bm25_score : Rat := 0

def kRouteVector : UInt8 := 0x01
def kRouteBM25 : UInt8 := 0x02
def kRouteSQL : UInt8 := 0x04

def routeFlag (route_name : String) : UInt8 :=
  if route_name = "vector" then kRouteVector
  else if route_name = "bm25" then kRouteBM25
  else if route_name = "sql" then kRouteSQL
  else 0

/-- An item of a route, with its vote. -/
structure Vote where
  item : RouteResultItem
  flag : UInt8
  contribution : Rat

def Vote.block_id (v : Vote) : UInt64 := v.item.block_id

def vote (k : Nat) (route : RouteResult) (e : RouteResultItem × Nat) : Vote where
  item := e.1
  flag := routeFlag route.route_name
  contribution := 1 / ((k : Rat) + ((e.2 + 1 : Nat) : Rat))

def newBlock (v : Vote) : ScoredBlock where
  block_id := v.item.block_id
  doc_id := v.item.doc_id
  chunk_index := v.item.chunk_index
  rrf_score := v.contribution
  hit_routes := v.flag
  vector_score := if v.flag = kRouteVector then v.item.raw_score else 0
  bm25_score := if v.flag = kRouteBM25 then v.item.raw_score else 0

def addVote (sb : ScoredBlock) (v : Vote) : ScoredBlock :=
  { sb with
    rrf_score := sb.rrf_score + v.contribution
    hit_routes := sb.hit_routes ||| v.flag
    vector_score := if v.flag = kRouteVector then v.item.raw_score else sb.vector_score
    bm25_score := if v.flag = kRouteBM25 then v.item.raw_score else sb.bm25_score }

/-- Look the block up, and add to it or insert it. -/
def mergeVote (m : List (UInt64 × ScoredBlock)) (v : Vote) : List (UInt64 × ScoredBlock) :=
  tallyStep Vote.block_id (fun _ => newBlock) addVote m v

/-- `block_map` behind the loops. -/
def blockMap (k : Nat) (routes : List RouteResult) : List (UInt64 × ScoredBlock) :=
  routes.foldl (fun m route =>
    if route.status ≠ .kSuccess then m
    else route.items.zipIdx.foldl (fun m e => mergeVote m (vote k route e)) m) []

/-- The comparator of `std::stable_sort`. -/
def blockBefore (a b : ScoredBlock) : Bool := decide (b.rrf_score < a.rrf_score)

/-- The result, the table being gone through as `rows`. -/
def Merge (rows : List (UInt64 × ScoredBlock)) : List ScoredBlock :=
  (rows.map Prod.snd).mergeSort fun a b => !blockBefore b a

/-! ## The table -/

section
variable (k : Nat) (routes : List RouteResult)

def votes : List Vote :=
  (routes.filter fun route => route.status = .kSuccess).flatMap fun route => route.items.zipIdx.map (vote k route)

def fusedScore (block_id : UInt64) : Rat :=
  (share Vote.block_id block_id (votes k routes)).foldl (fun s v => s + v.contribution) 0

def Voted (block_id : UInt64) : Prop :=
  ∃ route ∈ routes, route.status = .kSuccess ∧ ∃ item ∈ route.items, item.block_id = block_id

end

variable {k : Nat} {routes : List RouteResult}

theorem blockMap_eq (k : Nat) (routes : List RouteResult) :
    blockMap k routes = tally Vote.block_id (fun _ => newBlock) addVote (votes k routes) := by
  have hfold : ∀ (routes : List RouteResult) (m : List (UInt64 × ScoredBlock)),
      routes.foldl (fun m route => if route.status ≠ .kSuccess then m
        else route.items.zipIdx.foldl (fun m e => mergeVote m (vote k route e)) m) m =
      (votes k routes).foldl mergeVote m := by
    intro routes
    induction routes with
    | nil => exact fun _ => rfl
    | cons route routes ih =>
      intro m
      rw [List.foldl_cons, ih]
      by_cases hs : route.status = .kSuccess
      · rw [if_neg (not_not.mpr hs), votes, votes, List.filter_cons_of_pos (by simpa using hs), List.flatMap_cons,
          List.foldl_append, List.foldl_map]
      · rw [if_pos hs, votes, votes, List.filter_cons_of_neg (by simpa using hs)]
  exact hfold routes []

theorem entry_block {i : Nat} {vs : List Vote} {sb : ScoredBlock} {b : UInt64} (hvs : ∀ v ∈ vs, v.block_id = b)
    (h : tallyEntry (fun _ => newBlock) addVote i vs = some sb) :
    sb.block_id = b ∧ sb.rrf_score = vs.foldl (fun s v => s + v.contribution) 0 := by
  have hfold : ∀ (vs : List Vote) (sb : ScoredBlock), (vs.foldl addVote sb).block_id = sb.block_id ∧
      (vs.foldl addVote sb).rrf_score = vs.foldl (fun s v => s + v.contribution) sb.rrf_score := by
    intro vs
    induction vs with
    | nil => exact fun _ => ⟨rfl, rfl⟩
    | cons v vs ih => exact fun sb => ih (addVote sb v)
  cases vs with
  | nil => cases h
  | cons v vs =>
    cases h
    obtain ⟨h1, h2⟩ := hfold vs (newBlock v)
    refine ⟨h1.trans (hvs v (by simp)), ?_⟩
    rw [h2, List.foldl_cons, zero_add]
    rfl

theorem blockMap_nodup (k : Nat) (routes : List RouteResult) : ((blockMap k routes).map Prod.fst).Nodup := by
  rw [blockMap_eq]
  exact nodup_tally_keys _ _ _ _

theorem mem_blockMap_keys (k : Nat) {b : UInt64} : b ∈ (blockMap k routes).map Prod.fst ↔ Voted routes b := by
  rw [blockMap_eq, tally_keys, List.mem_eraseDups, votes, List.map_flatMap, List.mem_flatMap]
  constructor
  · rintro ⟨route, hroute, hb⟩
    obtain ⟨hmem, hs⟩ := List.mem_filter.mp hroute
    rw [List.map_map] at hb
    obtain ⟨e, he, rfl⟩ := List.mem_map.mp hb
    exact ⟨route, hmem, by simpa using hs, e.1, List.fst_mem_of_mem_zipIdx he, rfl⟩
  · rintro ⟨route, hmem, hs, item, hitem, rfl⟩
    obtain ⟨i, hi, rfl⟩ := List.mem_iff_getElem.mp hitem
    refine ⟨route, List.mem_filter.mpr ⟨hmem, by simpa using hs⟩, ?_⟩
    rw [List.map_map]
    exact List.mem_map.mpr ⟨(route.items[i], i), List.mk_mem_zipIdx_iff_getElem?.mpr (List.getElem?_eq_getElem hi), rfl⟩

theorem blockMap_value {row : UInt64 × ScoredBlock} (h : row ∈ blockMap k routes) :
    row.2.block_id = row.1 ∧ row.2.rrf_score = fusedScore k routes row.1 := by
  rw [blockMap_eq] at h
  obtain ⟨i, hi⟩ := List.mem_iff_getElem?.mp h
  refine entry_block (fun v hv => ?_) (tally_value _ _ _ hi)
  simpa using (List.mem_filter.mp hv).2

/-! ## The result -/

structure Merged (k : Nat) (routes : List RouteResult) (out : List ScoredBlock) : Prop where
  once : (out.map (·.block_id)).Nodup
  complete : ∀ b, b ∈ out.map (·.block_id) ↔ Voted routes b
  score : ∀ sb ∈ out, sb.rrf_score = fusedScore k routes sb.block_id
  ordered : out.Pairwise fun a b => b.rrf_score ≤ a.rrf_score

theorem not_blockBefore {a b : ScoredBlock} : (!blockBefore b a) = true ↔ b.rrf_score ≤ a.rrf_score := by
  simp [blockBefore]

theorem merge_perm (rows : List (UInt64 × ScoredBlock)) : (Merge rows).Perm (rows.map Prod.snd) :=
  List.mergeSort_perm _ _

theorem blockBefore_trans (a b c : ScoredBlock) (h1 : (!blockBefore b a) = true) (h2 : (!blockBefore c b) = true) :
    (!blockBefore c a) = true :=
  not_blockBefore.mpr ((not_blockBefore.mp h2).trans (not_blockBefore.mp h1))

theorem blockBefore_total (a b : ScoredBlock) : (!blockBefore b a || !blockBefore a b) = true := by
  rw [Bool.or_eq_true, not_blockBefore, not_blockBefore]
  exact le_total _ _

theorem merge_ordered (rows : List (UInt64 × ScoredBlock)) :
    (Merge rows).Pairwise fun a b => b.rrf_score ≤ a.rrf_score :=
  (List.pairwise_mergeSort blockBefore_trans blockBefore_total _).imp not_blockBefore.mp

variable {rows : List (UInt64 × ScoredBlock)}

theorem mem_merge (hrows : rows.Perm (blockMap k routes)) {sb : ScoredBlock} :
    sb ∈ Merge rows ↔ (sb.block_id, sb) ∈ blockMap k routes := by
  rw [(merge_perm rows).mem_iff, (hrows.map Prod.snd).mem_iff, List.mem_map]
  constructor
  · rintro ⟨row, hrow, rfl⟩
    rw [(blockMap_value hrow).1]
    exact hrow
  · exact fun h => ⟨_, h, rfl⟩

theorem merge_ids (hrows : rows.Perm (blockMap k routes)) :
    ((Merge rows).map (·.block_id)).Perm ((blockMap k routes).map Prod.fst) := by
  have hids : (blockMap k routes).map Prod.fst = ((blockMap k routes).map Prod.snd).map (·.block_id) := by
    rw [List.map_map]
    exact List.map_congr_left fun row hrow => (blockMap_value hrow).1.symm
  rw [hids]
  exact ((merge_perm rows).trans (hrows.map Prod.snd)).map _

theorem merge_merged (hrows : rows.Perm (blockMap k routes)) : Merged k routes (Merge rows) where
  once := (merge_ids hrows).nodup_iff.mpr (blockMap_nodup k routes)
  complete b := by rw [(merge_ids hrows).mem_iff, mem_blockMap_keys k]
  score sb hsb := (blockMap_value ((mem_merge hrows).mp hsb)).2
  ordered := merge_ordered rows

/-! ## Equal scores -/

def DistinctScores (k : Nat) (routes : List RouteResult) : Prop :=
  ∀ b b', Voted routes b → Voted routes b' → fusedScore k routes b = fusedScore k routes b' → b = b'

theorem not_both_orders {α : Type} {x y : α} (hne : x ≠ y) {l : List α} (hl : l.Nodup) (hxy : [x, y].Sublist l)
    (hyx : [y, x].Sublist l) : False := by
  induction l with
  | nil => cases hxy
  | cons z l ih =>
    obtain ⟨hz, hl⟩ := List.nodup_cons.mp hl
    cases hxy with
    | cons _ hxy =>
      cases hyx with
      | cons _ hyx => exact ih hl hxy hyx
      | cons_cons _ hyx => exact hz (hxy.subset (by simp))
    | cons_cons _ hxy =>
      cases hyx with
      | cons _ hyx => exact hz (hyx.subset (by simp))
      | cons_cons _ hyx => exact hne rfl

theorem pair_sublist {α : Type} {x y : α} (hne : x ≠ y) {l : List α} (hx : x ∈ l) (hy : y ∈ l) :
    [x, y].Sublist l ∨ [y, x].Sublist l := by
  induction l with
  | nil => cases hx
  | cons z l ih =>
    rcases List.mem_cons.mp hx with rfl | hxl
    · rcases List.mem_cons.mp hy with rfl | hyl
      · exact absurd rfl hne
      · exact .inl ((List.singleton_sublist.mpr hyl).cons_cons _)
    · rcases List.mem_cons.mp hy with rfl | hyl
      · exact .inr ((List.singleton_sublist.mpr hxl).cons_cons _)
      · exact (ih hxl hyl).imp (.cons _) (.cons _)

theorem order_free_of_distinct (h : DistinctScores k routes) {rows rows' : List (UInt64 × ScoredBlock)}
    (hrows : rows.Perm (blockMap k routes)) (hrows' : rows'.Perm (blockMap k routes)) : Merge rows = Merge rows' := by
  have hperm : (Merge rows).Perm (Merge rows') :=
    (merge_perm rows).trans (((hrows.trans hrows'.symm).map Prod.snd).trans (merge_perm rows').symm)
  refine List.Perm.eq_of_pairwise (fun x y hx hy hxy hyx => ?_) (merge_ordered rows) (merge_ordered rows') hperm
  have hm := merge_merged hrows
  have hm' := merge_merged hrows'
  have hid : x.block_id = y.block_id := by
    refine h _ _ ((hm.complete _).mp (List.mem_map_of_mem hx)) ((hm'.complete _).mp (List.mem_map_of_mem hy)) ?_
    rw [← hm.score x hx, ← hm'.score y hy]
    exact le_antisymm hyx hxy
  have hkeyed : Keyed Prod.fst (blockMap k routes) := blockMap_nodup k routes
  exact congrArg Prod.snd (hkeyed.eq_of_key ((mem_merge hrows).mp hx) ((mem_merge hrows').mp hy) hid)

/-- Two orders of the table put two blocks of one score in two orders. -/
theorem distinct_of_order_free
    (h : ∀ rows rows', rows.Perm (blockMap k routes) → rows'.Perm (blockMap k routes) → Merge rows = Merge rows') :
    DistinctScores k routes := by
  intro b b' hb hb' hscore
  by_contra hne
  obtain ⟨row, hrow, rfl⟩ := List.mem_map.mp ((mem_blockMap_keys k).mpr hb)
  obtain ⟨row', hrow', rfl⟩ := List.mem_map.mp ((mem_blockMap_keys k).mpr hb')
  have hrev : (blockMap k routes).reverse.Perm (blockMap k routes) := List.reverse_perm _
  have hsame := h _ _ (List.Perm.refl _) hrev
  have hnd : (Merge (blockMap k routes)).Nodup := (merge_merged (List.Perm.refl _)).once.of_map _
  -- the sort keeps the order of two rows of one score
  have hstable : ∀ {rows : List (UInt64 × ScoredBlock)} {x y : UInt64 × ScoredBlock}, [x, y].Sublist rows →
      x.2.rrf_score = y.2.rrf_score → [x.2, y.2].Sublist (Merge rows) := fun hsub heq =>
    List.pair_sublist_mergeSort blockBefore_trans blockBefore_total (not_blockBefore.mpr heq.ge) (hsub.map Prod.snd)
  have heq : row.2.rrf_score = row'.2.rrf_score := by
    rw [(blockMap_value hrow).2, (blockMap_value hrow').2, hscore]
  have hne2 : row.2 ≠ row'.2 := fun h2 => hne (by rw [← (blockMap_value hrow).1, ← (blockMap_value hrow').1, h2])
  rcases pair_sublist (fun hrr => hne (congrArg Prod.fst hrr)) hrow hrow' with hsub | hsub
  · have hrsub : [row', row].Sublist (blockMap k routes).reverse := hsub.reverse
    refine not_both_orders hne2 hnd (hstable hsub heq) ?_
    rw [hsame]
    exact hstable hrsub heq.symm
  · have hrsub : [row, row'].Sublist (blockMap k routes).reverse := hsub.reverse
    refine not_both_orders hne2 hnd ?_ (hstable hsub heq.symm)
    rw [hsame]
    exact hstable hrsub heq

/-- The fusion is deterministic: there is one result, whatever the order of the table, with every block once, its score
and the best first. -/
def Deterministic (k : Nat) (routes : List RouteResult) : Prop :=
  ∃ out, Merged k routes out ∧ ∀ rows, rows.Perm (blockMap k routes) → Merge rows = out

/-- It is so exactly when no two blocks have one score; apart from the order of such blocks, every result is right. -/
theorem deterministic_iff (k : Nat) (routes : List RouteResult) :
    (Deterministic k routes ↔ DistinctScores k routes) ∧
      ∀ rows, rows.Perm (blockMap k routes) → Merged k routes (Merge rows) := by
  refine ⟨⟨?_, fun h => ?_⟩, fun rows hrows => merge_merged hrows⟩
  · rintro ⟨out, -, hout⟩
    exact distinct_of_order_free fun rows rows' hrows hrows' => (hout rows hrows).trans (hout rows' hrows').symm
  · exact ⟨_, merge_merged (List.Perm.refl _), fun rows hrows => order_free_of_distinct h hrows (List.Perm.refl _)⟩

/-- One block found by the vector route only, another by the text route only, both at rank 1. -/
theorem first_hits_tie :
    ¬ Deterministic 60 [⟨"vector", .kSuccess, [⟨1, "a", 0, 9 / 10⟩]⟩, ⟨"bm25", .kSuccess, [⟨2, "b", 0, 3⟩]⟩] := by
  rintro ⟨out, -, hout⟩
  have hdistinct := distinct_of_order_free fun rows rows' hrows hrows' => (hout rows hrows).trans (hout rows' hrows').symm
  have h12 : (1 : UInt64) = 2 :=
    hdistinct 1 2 ((mem_blockMap_keys 60).mp (by decide +kernel)) ((mem_blockMap_keys 60).mp (by decide +kernel))
      (by decide +kernel)
  exact absurd h12 (by decide)

end Cortrix.Query.RrfFusion
