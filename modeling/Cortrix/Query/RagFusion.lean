import Cortrix.Lib.Ranking
import Cortrix.Lib.Tally
import Mathlib.Data.Rat.Floor

/-!
# Fusing the result lists of a query and its variants

Every list votes for its chunks with its weight over `k + rank`; the head of the original query's list stands first,
the other chunks follow by score.

* `FuseResults` and its parts `DynamicOriginalAnchorCount`, `accumulate`, `anchorLoop` follow the source, with exact
  scores; `rows` are the entries of the hash table in the order in which it is gone through;
* `fuseResults_fused` : what the fusion returns, whatever the order of the table.
-/

namespace Cortrix.Query.RagFusion
open Lib

structure ScoredResult where
  childId : String
  score : Rat

structure RagFusionConfig where
  rrfK : Int := 60
  fusionOriginalWeight : Rat := 17 / 10
  fusionVariantWeight : Rat := 1 / 2
  fusionAnchorMax : Int := 3

def stdMax (a b : Rat) : Rat := if a < b then b else a

def DynamicOriginalAnchorCount (original_results : List ScoredResult) (anchor_max : Int) : Nat :=
  if anchor_max ≤ 0 then 0
  else
    let cap := anchor_max.toNat
    match original_results with
    | [] => 0
    | [_] => 1
    | a :: b :: rest =>
      let top := stdMax 0 a.score
      if top ≤ 0 then 1
      else
        let second := stdMax 0 b.score
        let third := (rest.head?.map fun c => stdMax 0 c.score).getD second
        if top * (45 / 100) ≤ third then Nat.min cap original_results.length
        else if top * (35 / 100) ≤ second then Nat.min (Nat.min 2 cap) original_results.length
        else 1

structure Acc where
  rrf : Rat := 0
  best_raw : Rat := 0
  first_seen : Nat := 0

/-- One place of a chunk in one list, with what it adds. -/
structure Occurrence where
  childId : String
  contribution : Rat
  score : Rat

/-- The table and the next number. -/
abbrev State := List (String × Acc) × Nat

/-- The body of the two loops. An entry that is still at its defaults is numbered. -/
def addOccurrence (st : State) (o : Occurrence) : State :=
  let a := ((lookup Prod.fst o.childId st.1).map Prod.snd).getD {}
  let fresh := a.rrf = 0 ∧ a.best_raw = 0
  let a' : Acc := {
    rrf := a.rrf + o.contribution
    best_raw := stdMax a.best_raw o.score
    first_seen := if fresh then st.2 else a.first_seen }
  (upsertRow Prod.fst (o.childId, a') st.1, if fresh then st.2 + 1 else st.2)

def rrfK (cfg : RagFusionConfig) : Int := if cfg.rrfK ≤ 0 then 60 else cfg.rrfK

def roleWeight (cfg : RagFusionConfig) (query_index : Nat) : Rat :=
  if query_index = 0 then cfg.fusionOriginalWeight else cfg.fusionVariantWeight

/-- The place at index `r` of the list with index `query_index`. -/
def occurrence (cfg : RagFusionConfig) (query_index : Nat) (e : ScoredResult × Nat) : Occurrence where
  childId := e.1.childId
  contribution := roleWeight cfg query_index / ((rrfK cfg : Rat) + ((e.2 + 1 : Nat) : Rat))
  score := e.1.score

def accumulate (cfg : RagFusionConfig) (lists : List (List ScoredResult)) : State :=
  lists.zipIdx.foldl (fun st l => l.1.zipIdx.foldl (fun st e => addOccurrence st (occurrence cfg l.2 e)) st) ([], 0)

/-- The comparator of the sort. -/
def rowBefore (x y : String × Acc) : Bool :=
  if x.2.rrf ≠ y.2.rrf then decide (y.2.rrf < x.2.rrf) else decide (x.2.first_seen < y.2.first_seen)

/-- The head of the original list: the ids that were emitted, and their results. -/
def anchorLoop (acc : List (String × Acc)) (anchor_limit : Nat) :
    List ScoredResult → List String → List ScoredResult → Nat → List String × List ScoredResult
  | [], emitted, fused, _ => (emitted, fused)
  | sr :: rest, emitted, fused, anchored_count =>
    if anchor_limit ≤ anchored_count then (emitted, fused)
    else if sr.childId ∈ emitted then anchorLoop acc anchor_limit rest emitted fused anchored_count
    else
      match lookup Prod.fst sr.childId acc with
      | none => anchorLoop acc anchor_limit rest (emitted ++ [sr.childId]) fused anchored_count
      | some found =>
        anchorLoop acc anchor_limit rest (emitted ++ [sr.childId]) (fused ++ [⟨sr.childId, found.2.rrf⟩])
          (anchored_count + 1)

def anchors (cfg : RagFusionConfig) (lists : List (List ScoredResult)) : List String × List ScoredResult :=
  match lists with
  | [] => ([], [])
  | original_results :: _ =>
    anchorLoop (accumulate cfg lists).1 (DynamicOriginalAnchorCount original_results cfg.fusionAnchorMax)
      original_results [] [] 0

def FuseResults (sorter : Sorter rowBefore) (cfg : RagFusionConfig) (lists : List (List ScoredResult))
    (rows : List (String × Acc)) : List ScoredResult :=
  (anchors cfg lists).2 ++
    ((sorter.sort rows).filter fun row => row.1 ∉ (anchors cfg lists).1).map fun row => ⟨row.1, row.2.rrf⟩

/-! ## The table -/

/-- All places, in the order in which they are read. -/
def occurrences (cfg : RagFusionConfig) (lists : List (List ScoredResult)) : List Occurrence :=
  lists.zipIdx.flatMap fun l => l.1.zipIdx.map (occurrence cfg l.2)

def total (os : List Occurrence) : Rat := os.foldl (fun s o => s + o.contribution) 0

/-- The chunks, each once, in the order of first appearance. -/
def distinctIds (lists : List (List ScoredResult)) : List String := (lists.flatten.map (·.childId)).eraseDups

def newAcc (i : Nat) (o : Occurrence) : Acc := ⟨0 + o.contribution, stdMax 0 o.score, i⟩

def addAcc (a : Acc) (o : Occurrence) : Acc := ⟨a.rrf + o.contribution, stdMax a.best_raw o.score, a.first_seen⟩

abbrev table (os : List Occurrence) : List (String × Acc) := tally Occurrence.childId newAcc addAcc os

theorem entry_acc {i : Nat} {os : List Occurrence} {a : Acc} (h : tallyEntry newAcc addAcc i os = some a) :
    a.rrf = total os ∧ a.first_seen = i := by
  have hfold : ∀ (os : List Occurrence) (a : Acc), (os.foldl addAcc a).rrf =
      os.foldl (fun s o => s + o.contribution) a.rrf ∧ (os.foldl addAcc a).first_seen = a.first_seen := by
    intro os
    induction os with
    | nil => exact fun a => ⟨rfl, rfl⟩
    | cons o os ih => exact fun a => ih (addAcc a o)
  cases os with
  | nil => cases h
  | cons o os =>
    cases h
    exact hfold os (newAcc i o)

theorem table_get {os : List Occurrence} {i : Nat} {row : String × Acc} (h : (table os)[i]? = some row) :
    row.2.rrf = total (share Occurrence.childId row.1 os) ∧ row.2.first_seen = i :=
  entry_acc (tally_value _ _ _ h)

theorem total_pos {os : List Occurrence} (hne : os ≠ []) (hpos : ∀ o ∈ os, 0 < o.contribution) : 0 < total os := by
  have hle : ∀ (os : List Occurrence) (s : Rat), (∀ o ∈ os, 0 < o.contribution) →
      s ≤ os.foldl (fun s o => s + o.contribution) s := by
    intro os
    induction os with
    | nil => exact fun s _ => le_rfl
    | cons o os ih =>
      intro s h
      obtain ⟨ho, hos⟩ := List.forall_mem_cons.mp h
      have := ih (s + o.contribution) hos
      rw [List.foldl_cons]
      linarith
  cases os with
  | nil => exact absurd rfl hne
  | cons o os =>
    obtain ⟨ho, hos⟩ := List.forall_mem_cons.mp hpos
    have := hle os (0 + o.contribution) hos
    rw [total, List.foldl_cons]
    linarith

/-- With positive contributions the test for a new entry finds the new entries. -/
theorem foldl_addOccurrence {os : List Occurrence} (hpos : ∀ o ∈ os, 0 < o.contribution) :
    os.foldl addOccurrence ([], 0) = (table os, (table os).length) := by
  induction os using List.reverseRecOn with
  | nil => rfl
  | append_singleton os o ih =>
    have hos : ∀ o' ∈ os, 0 < o'.contribution := fun o' ho' => hpos o' (List.mem_append_left _ ho')
    have hrrf : ∀ row ∈ table os, row.2.rrf ≠ 0 := by
      intro row hrow
      obtain ⟨i, hi⟩ := List.mem_iff_getElem?.mp hrow
      rw [(table_get hi).1]
      refine (total_pos ?_ fun o' ho' => hos o' (List.mem_of_mem_filter ho')).ne'
      intro hnil
      have hentry : tallyEntry newAcc addAcc i (share Occurrence.childId row.1 os) = some row.2 := tally_value _ _ _ hi
      have hnil' : share Occurrence.childId row.1 os = [] := hnil
      rw [hnil'] at hentry
      cases hentry
    have hkeyed : Keyed Prod.fst (table os) := nodup_tally_keys _ _ _ os
    have hsnoc : table (os ++ [o]) = tallyStep Occurrence.childId newAcc addAcc (table os) o := tally_snoc _ _ _ os o
    have hlen : (table (os ++ [o])).length =
        if o.childId ∈ (table os).map Prod.fst then (table os).length else (table os).length + 1 := by
      rw [hsnoc, tallyStep]
      split <;> simp
    have hstep := upsertRow_eq_tallyStep Occurrence.childId newAcc addAcc hkeyed o
      (fun s => (s.map (addAcc · o)).getD (newAcc (table os).length o)) rfl fun s _ => rfl
    rw [List.foldl_append, List.foldl_cons, List.foldl_nil, ih hos, addOccurrence, hlen, hsnoc, ← hstep]
    cases hl : lookup Prod.fst o.childId (table os) with
    | none =>
      have hnot : o.childId ∉ (table os).map Prod.fst := by
        intro hmem
        obtain ⟨row, hrow, hk⟩ := List.mem_map.mp hmem
        exact lookup_eq_none.mp hl row hrow hk
      rw [if_neg hnot]
      simp [newAcc]
    | some row =>
      obtain ⟨hrow, hk⟩ := lookup_eq_some hl
      rw [if_pos (List.mem_map.mpr ⟨row, hrow, hk⟩)]
      simp [hrrf row hrow, addAcc]

theorem accumulate_eq_foldl (cfg : RagFusionConfig) (lists : List (List ScoredResult)) :
    accumulate cfg lists = (occurrences cfg lists).foldl addOccurrence ([], 0) := by
  rw [accumulate, occurrences, List.foldl_flatMap]
  simp only [List.foldl_map]

theorem occurrences_ids (cfg : RagFusionConfig) (lists : List (List ScoredResult)) :
    (occurrences cfg lists).map Occurrence.childId = lists.flatten.map (·.childId) := by
  have hlist : ∀ l : List ScoredResult × Nat, (l.1.zipIdx.map (occurrence cfg l.2)).map Occurrence.childId =
      l.1.map (·.childId) := by
    intro l
    conv_rhs => rw [← List.zipIdx_map_fst 0 l.1, List.map_map]
    rw [List.map_map]
    rfl
  rw [occurrences, List.map_flatMap]
  simp only [hlist]
  rw [List.map_flatten, ← List.flatMap_def]
  conv_rhs => rw [← List.zipIdx_map_fst 0 lists, List.flatMap_map]

section
variable (cfg : RagFusionConfig) (lists : List (List ScoredResult))

def fusedScore (childId : String) : Rat := total (share Occurrence.childId childId (occurrences cfg lists))

def entries : List (String × Acc) := (accumulate cfg lists).1

def original : List ScoredResult := lists.head?.getD []

def anchorCount : Nat := DynamicOriginalAnchorCount (original lists) cfg.fusionAnchorMax

def originalIds : List String := ((original lists).map (·.childId)).eraseDups

end

variable {cfg : RagFusionConfig} {lists : List (List ScoredResult)}

section Table
variable (ho : 0 < cfg.fusionOriginalWeight) (hv : 0 < cfg.fusionVariantWeight)
include ho hv

theorem contribution_pos : ∀ o ∈ occurrences cfg lists, 0 < o.contribution := by
  intro o ho'
  obtain ⟨l, -, hl⟩ := List.mem_flatMap.mp ho'
  obtain ⟨e, -, rfl⟩ := List.mem_map.mp hl
  have hweight : 0 < roleWeight cfg l.2 := by
    unfold roleWeight
    split
    · exact ho
    · exact hv
  have hk : (0 : Rat) < rrfK cfg := by
    have : 0 < rrfK cfg := by
      unfold rrfK
      split <;> omega
    exact_mod_cast this
  have hrank : (0 : Rat) < ((e.2 + 1 : Nat) : Rat) := by exact_mod_cast Nat.succ_pos e.2
  exact div_pos hweight (add_pos hk hrank)

theorem entries_eq : entries cfg lists = table (occurrences cfg lists) := by
  rw [entries, accumulate_eq_foldl, foldl_addOccurrence (contribution_pos ho hv)]

theorem entries_keys : (entries cfg lists).map Prod.fst = distinctIds lists := by
  rw [entries_eq ho hv, table, tally_keys, occurrences_ids, distinctIds]

theorem entries_get {i : Nat} {row : String × Acc} (h : (entries cfg lists)[i]? = some row) :
    row.2.rrf = fusedScore cfg lists row.1 ∧ row.2.first_seen = i ∧ (distinctIds lists).idxOf row.1 = i := by
  have hkeys : (entries cfg lists).map Prod.fst = distinctIds lists := entries_keys ho hv
  have htable : (table (occurrences cfg lists))[i]? = some row := by rw [← entries_eq ho hv, h]
  have hnd : ((entries cfg lists).map Prod.fst).Nodup := hkeys ▸ nodup_eraseDups _
  refine ⟨?_, ?_, ?_⟩
  · exact (table_get htable).1
  · exact (table_get htable).2
  · rw [← hkeys]
    obtain ⟨hi, rfl⟩ := List.getElem?_eq_some_iff.mp h
    have hi' : i < ((entries cfg lists).map Prod.fst).length := by rwa [List.length_map]
    have := hnd.idxOf_getElem i hi'
    rwa [List.getElem_map] at this

theorem lookup_entries {childId : String} (h : childId ∈ distinctIds lists) :
    ∃ row, lookup Prod.fst childId (entries cfg lists) = some row ∧ row.2.rrf = fusedScore cfg lists childId := by
  rw [← entries_keys ho hv] at h
  obtain ⟨row, hrow, rfl⟩ := List.mem_map.mp h
  have hkeyed : Keyed Prod.fst (entries cfg lists) := by
    rw [Keyed, entries_keys ho hv]
    exact nodup_eraseDups _
  obtain ⟨i, hi⟩ := List.mem_iff_getElem?.mp hrow
  exact ⟨row, hkeyed.lookup_of_mem hrow, (entries_get ho hv hi).1⟩

end Table

/-! ## The anchored head -/

theorem anchorCount_le (cfg : RagFusionConfig) (lists : List (List ScoredResult)) :
    anchorCount cfg lists ≤ cfg.fusionAnchorMax.toNat := by
  unfold anchorCount DynamicOriginalAnchorCount
  split
  · exact Nat.zero_le _
  · rename_i hpos
    dsimp only
    have hone : 1 ≤ cfg.fusionAnchorMax.toNat := by omega
    split
    · exact Nat.zero_le _
    · exact hone
    · split
      · exact hone
      · split
        · exact Nat.min_le_left _ _
        · split
          · exact (Nat.min_le_left _ _).trans (Nat.min_le_right _ _)
          · exact hone

/-- The loop emits the ids that are new, up to the limit. -/
theorem anchorLoop_eq {acc : List (String × Acc)} {score : String → Rat} (limit : Nat) (rest : List ScoredResult)
    (hacc : ∀ sr ∈ rest, ∃ row, lookup Prod.fst sr.childId acc = some row ∧ row.2.rrf = score sr.childId)
    (emitted : List String) (fused : List ScoredResult) (count : Nat) :
    anchorLoop acc limit rest emitted fused count =
      (emitted ++ (((rest.map (·.childId)).filter (· ∉ emitted)).eraseDups).take (limit - count),
        fused ++ ((((rest.map (·.childId)).filter (· ∉ emitted)).eraseDups).take (limit - count)).map
          fun id => ⟨id, score id⟩) := by
  induction rest generalizing emitted fused count with
  | nil => simp [anchorLoop]
  | cons sr rest ih =>
    obtain ⟨⟨row, hrow, hscore⟩, hrest⟩ := List.forall_mem_cons.mp hacc
    rw [anchorLoop]
    by_cases hlimit : limit ≤ count
    · rw [if_pos hlimit, Nat.sub_eq_zero_of_le hlimit]
      simp
    · rw [if_neg hlimit]
      by_cases hin : sr.childId ∈ emitted
      · rw [if_pos hin, ih hrest, List.map_cons, List.filter_cons_of_neg (by simpa using hin)]
      · obtain ⟨n, hn⟩ : ∃ n, limit - count = n + 1 := ⟨limit - count - 1, by omega⟩
        have hnext : limit - (count + 1) = n := by omega
        have hfilter : (rest.map (·.childId)).filter (· ∉ emitted ++ [sr.childId]) =
            ((rest.map (·.childId)).filter (· ∉ emitted)).filter fun id => !id == sr.childId := by
          rw [List.filter_filter]
          refine List.filter_congr fun id _ => ?_
          by_cases h1 : id = sr.childId <;> simp [h1]
        rw [if_neg hin, hrow]
        dsimp only
        rw [ih hrest, hscore, List.map_cons, List.filter_cons_of_pos (by simpa using hin), List.eraseDups_cons, hn,
          List.take_succ_cons, hnext, hfilter, List.map_cons, List.append_assoc, List.append_assoc,
          List.singleton_append, List.singleton_append]

theorem original_subset : ∀ id ∈ originalIds lists, id ∈ distinctIds lists := by
  intro id hid
  cases lists with
  | nil => simp [originalIds, original] at hid
  | cons l ls =>
    rw [originalIds, List.mem_eraseDups] at hid
    obtain ⟨sr, hsr, rfl⟩ := List.mem_map.mp hid
    exact List.mem_eraseDups.mpr (List.mem_map.mpr ⟨sr, List.mem_flatten.mpr ⟨l, by simp, hsr⟩, rfl⟩)

theorem anchors_eq (ho : 0 < cfg.fusionOriginalWeight) (hv : 0 < cfg.fusionVariantWeight) :
    anchors cfg lists = ((originalIds lists).take (anchorCount cfg lists),
      ((originalIds lists).take (anchorCount cfg lists)).map fun id => ⟨id, fusedScore cfg lists id⟩) := by
  cases lists with
  | nil => simp [anchors, originalIds, original]
  | cons l ls =>
    have hacc : ∀ sr ∈ l, ∃ row, lookup Prod.fst sr.childId (entries cfg (l :: ls)) = some row ∧
        row.2.rrf = fusedScore cfg (l :: ls) sr.childId := by
      intro sr hsr
      refine lookup_entries ho hv (original_subset _ ?_)
      exact List.mem_eraseDups.mpr (List.mem_map_of_mem hsr)
    have hloop := anchorLoop_eq (anchorCount cfg (l :: ls)) l hacc [] [] 0
    have hall : (l.map (·.childId)).filter (· ∉ ([] : List String)) = l.map (·.childId) :=
      List.filter_eq_self.mpr fun _ _ => by simp
    rwa [hall, Nat.sub_zero, List.nil_append, List.nil_append] at hloop

/-! ## The fused list -/

theorem rowBefore_eq : rowBefore = ranksBefore (fun row => row.2.rrf) fun row => row.2.first_seen := by
  funext x y
  unfold rowBefore ranksBefore
  by_cases heq : x.2.rrf = y.2.rrf
  · simp [heq]
  · rw [if_pos heq, if_neg fun hle => heq (le_antisymm hle.1 hle.2)]

/-- What a fusion returns: every chunk of the lists once, with its score; the head of the original list first, the other
chunks by score, and by first appearance where scores are equal. -/
structure Fused (cfg : RagFusionConfig) (lists : List (List ScoredResult)) (out : List ScoredResult) : Prop where
  once : (out.map (·.childId)).Nodup
  complete : ∀ id, id ∈ out.map (·.childId) ↔ ∃ l ∈ lists, id ∈ l.map (·.childId)
  score : ∀ r ∈ out, r.score = fusedScore cfg lists r.childId
  anchored : (out.take (Nat.min (anchorCount cfg lists) (originalIds lists).length)).map (·.childId) =
    (originalIds lists).take (Nat.min (anchorCount cfg lists) (originalIds lists).length)
  bounded : anchorCount cfg lists ≤ cfg.fusionAnchorMax.toNat
  ordered : (out.drop (Nat.min (anchorCount cfg lists) (originalIds lists).length)).Pairwise fun x y =>
    y.score < x.score ∨
      x.score = y.score ∧ (distinctIds lists).idxOf x.childId < (distinctIds lists).idxOf y.childId

section
variable {rows : List (String × Acc)} (ho : 0 < cfg.fusionOriginalWeight) (hv : 0 < cfg.fusionVariantWeight)
  (hrows : rows.Perm (entries cfg lists))
include ho hv hrows

theorem sorted_rows (sorter : Sorter rowBefore) :
    (sorter.sort rows).Pairwise fun x y => y.2.rrf < x.2.rrf ∨
      x.2.rrf = y.2.rrf ∧ (distinctIds lists).idxOf x.1 < (distinctIds lists).idxOf y.1 := by
  have hperm := (sorter.perm rows).trans hrows
  have hnd : (sorter.sort rows).Pairwise fun x y => x.1 ≠ y.1 := by
    refine List.pairwise_map.mp ((hperm.map Prod.fst).nodup_iff.mpr ?_)
    rw [entries_keys ho hv]
    exact nodup_eraseDups _
  have hnumber : ∀ row ∈ sorter.sort rows, row.2.first_seen = (distinctIds lists).idxOf row.1 := by
    intro row hrow
    obtain ⟨i, hi⟩ := List.mem_iff_getElem?.mp (hperm.mem_iff.mp hrow)
    obtain ⟨-, h1, h2⟩ := entries_get ho hv hi
    rw [h1, h2]
  have hmem : ∀ row ∈ sorter.sort rows, row.1 ∈ distinctIds lists := by
    intro row hrow
    rw [← entries_keys ho hv]
    exact List.mem_map_of_mem (hperm.mem_iff.mp hrow)
  refine ((sorter.pairwise rowBefore_eq rows).and hnd).imp_of_mem fun {x y} hx hy hxy => ?_
  obtain ⟨hlt | ⟨⟨h1, h2⟩, hseen⟩, hne⟩ := hxy
  · exact .inl hlt
  · refine .inr ⟨le_antisymm h1 h2, ?_⟩
    have hseen' : x.2.first_seen ≤ y.2.first_seen := hseen
    rw [hnumber x hx, hnumber y hy] at hseen'
    refine lt_of_le_of_ne hseen' fun heq => hne ?_
    exact (List.idxOf_inj (hmem x hx)).mp heq

theorem sorted_keys (sorter : Sorter rowBefore) :
    ((sorter.sort rows).map Prod.fst).Perm (distinctIds lists) ∧
      ∀ row ∈ sorter.sort rows, row.2.rrf = fusedScore cfg lists row.1 := by
  have hperm := (sorter.perm rows).trans hrows
  constructor
  · rw [← entries_keys ho hv]
    exact hperm.map Prod.fst
  · intro row hrow
    obtain ⟨i, hi⟩ := List.mem_iff_getElem?.mp (hperm.mem_iff.mp hrow)
    exact (entries_get ho hv hi).1

theorem fuse_of_rows (sorter : Sorter rowBefore) : Fused cfg lists (FuseResults sorter cfg lists rows) := by
  obtain ⟨hkeys, hscore⟩ := sorted_keys ho hv hrows sorter
  have hhead : Nat.min (anchorCount cfg lists) (originalIds lists).length =
      ((originalIds lists).take (anchorCount cfg lists)).length := (List.length_take).symm
  have hhead' : (originalIds lists).take (Nat.min (anchorCount cfg lists) (originalIds lists).length) =
      (originalIds lists).take (anchorCount cfg lists) :=
    List.take_eq_take_iff.mpr ((Nat.min_assoc _ _ _).trans (by rw [Nat.min_self]))
  rw [FuseResults, anchors_eq ho hv]
  generalize hanchored : (originalIds lists).take (anchorCount cfg lists) = anchored at *
  have hsub : ∀ id ∈ anchored, id ∈ distinctIds lists := fun id hid =>
    original_subset id (List.mem_of_mem_take (hanchored ▸ hid))
  obtain ⟨head, hhd⟩ : ∃ head : List ScoredResult, head = anchored.map fun id => ⟨id, fusedScore cfg lists id⟩ :=
    ⟨_, rfl⟩
  obtain ⟨tail, htl⟩ : ∃ tail : List ScoredResult,
      tail = ((sorter.sort rows).filter fun row => row.1 ∉ anchored).map fun row => ⟨row.1, row.2.rrf⟩ := ⟨_, rfl⟩
  have hlen : head.length = anchored.length := by rw [hhd, List.length_map]
  have hheadIds : head.map (·.childId) = anchored := by simp [hhd, Function.comp_def]
  have htailIds : tail.map (·.childId) = ((sorter.sort rows).map Prod.fst).filter (· ∉ anchored) := by
    simp [htl, List.filter_map, Function.comp_def]
  have hids : (head ++ tail).map (·.childId) =
      anchored ++ ((sorter.sort rows).map Prod.fst).filter (· ∉ anchored) := by
    rw [List.map_append, hheadIds, htailIds]
  rw [← hhd, ← htl]
  constructor
  · rw [hids]
    refine List.nodup_append.mpr ⟨?_, ?_, ?_⟩
    · exact hanchored ▸ (nodup_eraseDups _).sublist (List.take_sublist _ _)
    · exact ((hkeys.nodup_iff.mpr (nodup_eraseDups _))).filter _
    · rintro id hid _ hrest rfl
      simpa [hid] using (List.mem_filter.mp hrest).2
  · intro id
    rw [hids, List.mem_append, List.mem_filter, hkeys.mem_iff]
    have hmem : id ∈ distinctIds lists ↔ ∃ l ∈ lists, id ∈ l.map (·.childId) := by
      rw [distinctIds, List.mem_eraseDups, List.map_flatten, List.mem_flatten]
      simp
    rw [← hmem]
    by_cases hid : id ∈ anchored
    · simp [hid, hsub id hid]
    · simp [hid]
  · intro r hr
    obtain hr | hr := List.mem_append.mp hr
    · rw [hhd] at hr
      obtain ⟨id, -, rfl⟩ := List.mem_map.mp hr
      rfl
    · rw [htl] at hr
      obtain ⟨row, hrow, rfl⟩ := List.mem_map.mp hr
      exact hscore row (List.mem_of_mem_filter hrow)
  · rw [hhead', hhead, ← hlen, List.take_left, hheadIds]
  · exact anchorCount_le cfg lists
  · rw [hhead, ← hlen, List.drop_left, htl]
    exact List.pairwise_map.mpr ((sorted_rows ho hv hrows sorter).sublist List.filter_sublist)

end

/-- The fusion of any lists, whatever the order of the hash table and the sort. -/
theorem fuseResults_fused (cfg : RagFusionConfig) (lists : List (List ScoredResult))
    (ho : 0 < cfg.fusionOriginalWeight) (hv : 0 < cfg.fusionVariantWeight) :
    ∃ out, Fused cfg lists out ∧
      ∀ (sorter : Sorter rowBefore) (rows : List (String × Acc)), rows.Perm (entries cfg lists) →
        FuseResults sorter cfg lists rows = out := by
  refine ⟨FuseResults (Sorter.merge rowBefore_eq) cfg lists (entries cfg lists),
    fuse_of_rows ho hv (List.Perm.refl _) _, fun sorter rows hrows => ?_⟩
  have hsort : sorter.sort rows = (Sorter.merge rowBefore_eq).sort (entries cfg lists) := by
    refine List.Perm.eq_of_pairwise (fun x y _ _ hxy hyx => ?_) (sorted_rows ho hv hrows sorter)
      (sorted_rows ho hv (List.Perm.refl _) _)
      ((sorter.perm rows).trans (hrows.trans (Sorter.perm _ _).symm))
    obtain h1 | ⟨h1, h2⟩ := hxy
    · obtain h3 | ⟨h3, -⟩ := hyx
      · exact absurd h1 h3.not_gt
      · exact absurd h1 (h3 ▸ lt_irrefl _)
    · obtain h3 | ⟨-, h4⟩ := hyx
      · exact absurd h3 (h1 ▸ lt_irrefl _)
      · exact absurd h2 h4.not_gt
  rw [FuseResults, FuseResults, hsort]

theorem fuseResults_fused_default :
    ∃ out, Fused {} [[⟨"a", 1⟩, ⟨"b", -1⟩], [⟨"b", 0⟩, ⟨"b", 2⟩]] out ∧
      ∀ (sorter : Sorter rowBefore) (rows : List (String × Acc)),
        rows.Perm (entries {} [[⟨"a", 1⟩, ⟨"b", -1⟩], [⟨"b", 0⟩, ⟨"b", 2⟩]]) →
          FuseResults sorter {} [[⟨"a", 1⟩, ⟨"b", -1⟩], [⟨"b", 0⟩, ⟨"b", 2⟩]] rows = out :=
  fuseResults_fused {} _ (by decide +kernel) (by decide +kernel)

end Cortrix.Query.RagFusion
