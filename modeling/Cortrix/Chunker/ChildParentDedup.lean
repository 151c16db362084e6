import Cortrix.Lib.Ranking
import Cortrix.Query.ScatterGather
import Mathlib.Data.List.Perm.Lattice

/-!
# Folding child hits into parents

A vector search returns children, several of which may share one parent. `dedupChildrenToParents` groups them by parent
and selects the children that the reranker sees; a child without a parent is a group of its own.

* `Folds` : what the groups promise, `Collects` for each of them;
* `folds_iff` : they keep it, and no order of the hits changes them, exactly when no parent has more hits than an `int`
  can count.
-/

namespace Cortrix.Chunker
open Lib Cortrix.Query

/-! ## The fold -/

def kCrockford : Bytes := "0123456789ABCDEFGHJKMNPQRSTVWXYZ".toList.map fun c => UInt8.ofNat c.toNat

/-- 26 characters of Crockford's alphabet. -/
def IsUlid (s : Bytes) : Prop := s.length = 26 ∧ ∀ c ∈ s, c ∈ kCrockford

instance (s : Bytes) : Decidable (IsUlid s) := inferInstanceAs (Decidable (_ ∧ _))

abbrev Score := { f : Float32Bits // f.isNaN = false }

structure ChildHit where
  childId : Bytes
  parentId : Bytes
  score : Score

structure ParentHitGroup where
  parentId : Bytes
  primaryChildId : Bytes
  rerankChildIds : List Bytes
  allHitChildIds : List Bytes
  topScore : Score

/-- A hit without a parent has a key of its own. -/
def key (h : ChildHit) : Bytes := if h.parentId.isEmpty then 0x01 :: h.childId else h.parentId

def hitBefore (x y : ChildHit) : Bool :=
  if !x.score.val.eq y.score.val then x.score.val.gt y.score.val else decide (x.childId < y.childId)

def groupKey (g : ParentHitGroup) : Bytes := if g.parentId.isEmpty then g.primaryChildId else g.parentId

def groupBefore (x y : ParentHitGroup) : Bool :=
  if !x.topScore.val.eq y.topScore.val then x.topScore.val.gt y.topScore.val else decide (groupKey x < groupKey y)

/-- The accumulators in the order of `key_order`; the `parent_id` of one is that of its first hit. -/
def byKey (hits : List ChildHit) : List (Bucket ChildHit) := Bucket.buckets (fun h => some (key h)) hits

/-- The hits before position `cap`, as `static_cast<int>` counts positions. -/
def rerankHits (hits : List ChildHit) (cap : Int32) : List ChildHit :=
  (hits.zipIdx.filter fun p => decide (Int32.ofNat p.2 < cap)).map Prod.fst

def groupOf (sortHits : Sorter hitBefore) (cap : Int32) (a : Bucket ChildHit) : ParentHitGroup :=
  let hits := sortHits.sort a.all
  let front := hits.head (sortHits.ne_nil (List.cons_ne_nil _ _))
  { parentId := a.first.parentId
    primaryChildId := front.childId
    topScore := front.score
    allHitChildIds := hits.map (·.childId)
    rerankChildIds := (rerankHits hits cap).map (·.childId) }

def dedupChildrenToParents (sortHits : Sorter hitBefore) (sortGroups : Sorter groupBefore) (hits : List ChildHit)
    (childrenPerParentForRerank : Int32) : List ParentHitGroup :=
  let cap := max 1 childrenPerParentForRerank
  sortGroups.sort ((byKey hits).map (groupOf sortHits cap))

/-! ## What it promises -/

def scorePlace (h : ChildHit) : Int := h.score.val.place

def topPlace (g : ParentHitGroup) : Int := g.topScore.val.place

/-- `g` presents `hs`, the hits of its parent or one hit without a parent. -/
structure Collects (hits : List ChildHit) (cap : Int32) (g : ParentHitGroup) (hs : List ChildHit) : Prop where
  parent : g.parentId ≠ [] → hs.Perm (hits.filter fun h => decide (h.parentId = g.parentId))
  single : g.parentId = [] → ∃ h ∈ hits, h.parentId = [] ∧ hs = [h]
  ranked : hs.Pairwise (Ranks scorePlace (·.childId))
  all : g.allHitChildIds = hs.map (·.childId)
  rerank : g.rerankChildIds = g.allHitChildIds.take (min (max 1 cap.toInt).toNat g.allHitChildIds.length)
  first : ∃ h, hs.head? = some h ∧ g.primaryChildId = h.childId ∧ g.topScore = h.score

structure Folds (hits : List ChildHit) (cap : Int32) (groups : List ParentHitGroup) : Prop where
  once : (groups.flatMap (·.allHitChildIds)).Perm (hits.map (·.childId))
  collects : ∀ g ∈ groups, ∃ hs, Collects hits cap g hs
  ordered : groups.Pairwise (Ranks topPlace groupKey)

/-! ## Both orders are rankings -/

theorem compare_scores (a b : Score) (x y : Bytes) :
    (if !a.val.eq b.val then a.val.gt b.val else decide (x < y)) =
      if a.val.place ≤ b.val.place ∧ b.val.place ≤ a.val.place then decide (x < y)
      else decide (b.val.place < a.val.place) := by
  simp only [Float32Bits.eq, Float32Bits.gt, a.property, b.property, Bool.not_false, Bool.true_and]
  by_cases heq : a.val.place = b.val.place
  · simp [heq]
  · rw [if_pos (by simp [heq]), if_neg fun hle => heq (le_antisymm hle.1 hle.2)]

theorem hitBefore_eq : hitBefore = ranksBefore scorePlace (·.childId) := by
  funext x y
  exact compare_scores x.score y.score x.childId y.childId

theorem groupBefore_eq : groupBefore = ranksBefore topPlace groupKey := by
  funext x y
  exact compare_scores x.topScore y.topScore (groupKey x) (groupKey y)

/-! ## The cut at `cap` -/

theorem take_zipIdx (hits : List ChildHit) (k n : Nat) :
    ((hits.zipIdx k).filter fun p => decide (p.2 < k + n)).map Prod.fst = hits.take n := by
  induction hits generalizing k n with
  | nil => simp
  | cons h hits ih =>
    cases n with
    | zero =>
      rw [List.take_zero, List.map_eq_nil_iff, List.filter_eq_nil_iff]
      intro p hp
      have hle : k ≤ p.2 := List.le_snd_of_mem_zipIdx hp
      simpa using hle
    | succ n =>
      have hnext := ih (k + 1) n
      rw [show k + 1 + n = k + (n + 1) by omega] at hnext
      rw [List.zipIdx_cons, List.filter_cons_of_pos (by simp), List.map_cons, hnext, List.take_succ_cons]

theorem ofNat_lt_iff {cap : Int32} {i : Nat} (hi : i < 2 ^ 31) : Int32.ofNat i < cap ↔ i < cap.toInt.toNat := by
  rw [Int32.lt_iff_toInt_lt, Int32.toInt_ofNat_of_lt hi]
  omega

theorem toInt_max_one (c : Int32) : (max 1 c).toInt = max 1 c.toInt := by
  have hone : (1 : Int32).toInt = 1 := by decide
  rcases le_or_gt 1 c.toInt with hle | hlt
  · have hc : (1 : Int32) ≤ c := Int32.le_iff_toInt_le.mpr (by rw [hone]; exact hle)
    rw [show max 1 c = c from if_pos hc, max_eq_right hle]
  · have hc : ¬ (1 : Int32) ≤ c := fun h => by
      have := Int32.le_iff_toInt_le.mp h
      omega
    rw [show max 1 c = 1 from if_neg hc, max_eq_left hlt.le, hone]

theorem rerankHits_eq_take {hits : List ChildHit} {cap : Int32} (hlen : hits.length ≤ 2 ^ 31) :
    rerankHits hits cap = hits.take cap.toInt.toNat := by
  rw [rerankHits, ← take_zipIdx hits 0 cap.toInt.toNat]
  congr 1
  refine List.filter_congr fun p hp => ?_
  have hlt : p.2 < hits.length := by simpa using List.snd_lt_of_mem_zipIdx hp
  rw [decide_eq_decide, ofNat_lt_iff (by omega), Nat.zero_add]

/-- Position 2^31 is counted as a negative one, so a longer list gets more than its prefix. -/
theorem length_rerankHits_gt {hits : List ChildHit} {cap : Int32} (hcap : 0 ≤ cap.toInt) (hlen : 2 ^ 31 < hits.length) :
    cap.toInt.toNat < (rerankHits hits cap).length := by
  have hlt : cap.toInt.toNat < 2 ^ 31 := by
    have := Int32.toInt_lt cap
    omega
  have hhead : (rerankHits (hits.take (2 ^ 31)) cap).length = cap.toInt.toNat := by
    rw [rerankHits_eq_take (by simp), List.length_take, List.length_take]
    omega
  have hsplit : rerankHits hits cap = rerankHits (hits.take (2 ^ 31)) cap ++
      (((hits.drop (2 ^ 31)).zipIdx (2 ^ 31)).filter fun p => decide (Int32.ofNat p.2 < cap)).map Prod.fst := by
    unfold rerankHits
    conv_lhs => rw [← List.take_append_drop (2 ^ 31) hits]
    rw [List.zipIdx_append, List.filter_append, List.map_append, List.length_take, min_eq_left hlen.le, Nat.zero_add]
  obtain ⟨x, rest, hdrop⟩ := List.exists_cons_of_ne_nil (l := hits.drop (2 ^ 31)) fun hnil => by
    have := List.drop_eq_nil_iff.mp hnil
    omega
  have hneg : Int32.ofNat (x, 2 ^ 31).2 < cap := by
    have hmin : (Int32.ofNat (2 ^ 31)).toInt < 0 := by decide
    exact Int32.lt_iff_toInt_lt.mpr (hmin.trans_le hcap)
  have hfirst := List.filter_cons_of_pos (p := fun p : ChildHit × Nat => decide (Int32.ofNat p.2 < cap))
    (l := rest.zipIdx (2 ^ 31 + 1)) (decide_eq_true hneg)
  rw [hsplit, List.length_append, hhead, hdrop, List.zipIdx_cons, hfirst, List.map_cons, List.length_cons]
  omega

/-! ## One group -/

/-- The hits a fold is defined for: ids of their own, and parents that are no child's id. -/
structure Sound (hits : List ChildHit) : Prop where
  ids : (hits.map (·.childId)).Nodup
  ulids : ∀ h ∈ hits, h.parentId ≠ [] → IsUlid h.parentId
  apart : ∀ h ∈ hits, h.parentId ≠ [] → ∀ h' ∈ hits, h'.childId ≠ h.parentId

theorem IsUlid.head_ne {s rest : Bytes} {c : UInt8} (h : IsUlid s) (hs : s = c :: rest) : c ≠ 0x01 := by
  have hall : ∀ c ∈ kCrockford, c ≠ 0x01 := by decide +kernel
  exact hall c (h.2 c (by simp [hs]))

theorem key_of_parent {h : ChildHit} (hp : h.parentId ≠ []) : key h = h.parentId := by
  rw [key, if_neg (by simpa using hp)]

theorem key_of_flat {h : ChildHit} (hp : h.parentId = []) : key h = 0x01 :: h.childId := by
  rw [key, if_pos (by simp [hp])]

section Group
variable {hits : List ChildHit} {a b : Bucket ChildHit} {h h' : ChildHit}

theorem Sound.eq_of_id (hs : Sound hits) (hh : h ∈ hits) (hh' : h' ∈ hits) (heq : h.childId = h'.childId) : h = h' :=
  List.inj_on_of_nodup_map hs.ids hh hh' heq

theorem Sound.parent_eq (hs : Sound hits) (hh : h ∈ hits) (hh' : h' ∈ hits) (heq : key h = key h') :
    h.parentId = h'.parentId := by
  by_cases hp : h.parentId = []
  · by_cases hp' : h'.parentId = []
    · rw [hp, hp']
    · rw [key_of_flat hp, key_of_parent hp'] at heq
      exact absurd rfl ((hs.ulids h' hh' hp').head_ne heq.symm)
  · by_cases hp' : h'.parentId = []
    · rw [key_of_parent hp, key_of_flat hp'] at heq
      exact absurd rfl ((hs.ulids h hh hp).head_ne heq)
    · rwa [key_of_parent hp, key_of_parent hp'] at heq

theorem mem_hits (ha : a ∈ byKey hits) (hh : h ∈ a.all) : h ∈ hits :=
  (Bucket.buckets_perm hits).mem_iff.mp (List.mem_flatMap.mpr ⟨a, ha, hh⟩)

theorem first_mem_all (a : Bucket ChildHit) : a.first ∈ a.all := List.mem_cons_self

theorem all_perm (ha : a ∈ byKey hits) : a.all.Perm (hits.filter fun h => decide (key h = key a.first)) := by
  have hperm := Bucket.buckets_all (fun _ _ => rfl) ha
  simpa using hperm

theorem key_of_mem (ha : a ∈ byKey hits) (hh : h ∈ a.all) : key h = key a.first := by
  have hmem := (all_perm ha).mem_iff.mp hh
  simpa using (List.mem_filter.mp hmem).2

theorem exists_bucket (hh : h ∈ hits) : ∃ a ∈ byKey hits, h ∈ a.all :=
  List.mem_flatMap.mp ((Bucket.buckets_perm hits).mem_iff.mpr hh)

theorem byKey_keys (hits : List ChildHit) : (byKey hits).Pairwise fun a b => key a.first ≠ key b.first := by
  refine (List.pairwise_map.mp (Bucket.buckets_firsts_keys hits)).imp fun {a b} hkeys heq => ?_
  exact absurd (hkeys (congrArg some heq)) (by simp)

theorem Sound.all_of_parent (hs : Sound hits) (ha : a ∈ byKey hits) (hp : a.first.parentId ≠ []) :
    a.all.Perm (hits.filter fun h => decide (h.parentId = a.first.parentId)) := by
  refine (all_perm ha).trans (List.Perm.of_eq (List.filter_congr fun h hh => ?_))
  rw [decide_eq_decide]
  constructor
  · exact fun heq => hs.parent_eq hh (mem_hits ha (first_mem_all a)) heq
  · intro heq
    rw [key_of_parent (heq ▸ hp), key_of_parent hp, heq]

theorem Sound.all_of_flat (hs : Sound hits) (ha : a ∈ byKey hits) (hp : a.first.parentId = []) : a.all = [a.first] := by
  have hnodup : a.all.Nodup := by
    rw [(all_perm ha).nodup_iff]
    exact (List.Nodup.of_map _ hs.ids).filter _
  have hrest : a.rest = [] := by
    refine List.eq_nil_iff_forall_not_mem.mpr fun h hh => ?_
    have hmem : h ∈ a.all := List.mem_cons_of_mem _ hh
    have hkey := key_of_mem ha hmem
    have hflat : h.parentId = [] := (hs.parent_eq (mem_hits ha hmem) (mem_hits ha (first_mem_all a)) hkey).trans hp
    rw [key_of_flat hflat, key_of_flat hp] at hkey
    have heq := hs.eq_of_id (mem_hits ha hmem) (mem_hits ha (first_mem_all a)) (List.cons.inj hkey).2
    exact (List.nodup_cons.mp hnodup).1 (heq ▸ hh)
  rw [Bucket.all, hrest]

variable (sortHits : Sorter hitBefore) (cap : Int32)

theorem exists_front (a : Bucket ChildHit) : ∃ h ∈ a.all, (sortHits.sort a.all).head? = some h ∧
    (groupOf sortHits cap a).primaryChildId = h.childId ∧ (groupOf sortHits cap a).topScore = h.score := by
  have hne := sortHits.ne_nil (List.cons_ne_nil a.first a.rest)
  exact ⟨_, (sortHits.perm a.all).mem_iff.mp (List.head_mem hne), List.head?_eq_some_head hne, rfl, rfl⟩

theorem Sound.groupKey_ne (hs : Sound hits) (ha : a ∈ byKey hits) (hb : b ∈ byKey hits)
    (hne : key a.first ≠ key b.first) : groupKey (groupOf sortHits cap a) ≠ groupKey (groupOf sortHits cap b) := by
  have hprimary : ∀ a ∈ byKey hits, a.first.parentId = [] →
      groupKey (groupOf sortHits cap a) = a.first.childId := by
    intro a ha hp
    obtain ⟨h, hh, -, hid, -⟩ := exists_front sortHits cap a
    rw [hs.all_of_flat ha hp, List.mem_singleton] at hh
    rw [groupKey, if_pos (by simp [groupOf, hp]), hid, hh]
  have hparent : ∀ a : Bucket ChildHit, a.first.parentId ≠ [] →
      groupKey (groupOf sortHits cap a) = a.first.parentId := by
    intro a hp
    rw [groupKey, if_neg (by simpa [groupOf] using hp)]
    rfl
  have hmem := fun a (ha : a ∈ byKey hits) => mem_hits ha (first_mem_all a)
  by_cases hp : a.first.parentId = []
  · by_cases hq : b.first.parentId = []
    · rw [hprimary a ha hp, hprimary b hb hq]
      rw [key_of_flat hp, key_of_flat hq] at hne
      exact fun heq => hne (by rw [heq])
    · rw [hprimary a ha hp, hparent b hq]
      exact hs.apart _ (hmem b hb) hq _ (hmem a ha)
  · by_cases hq : b.first.parentId = []
    · rw [hparent a hp, hprimary b hb hq]
      exact (hs.apart _ (hmem a ha) hp _ (hmem b hb)).symm
    · rw [hparent a hp, hparent b hq]
      rwa [key_of_parent hp, key_of_parent hq] at hne

theorem Sound.groupOf_eq (hs : Sound hits) (ha : a ∈ byKey hits) (hp : a.first.parentId = b.first.parentId)
    (hperm : a.all.Perm b.all) : groupOf sortHits cap a = groupOf sortHits cap b := by
  have hsort : sortHits.sort a.all = sortHits.sort b.all :=
    sortHits.eq_of_perm hitBefore_eq (fun h hh h' hh' heq => hs.eq_of_id (mem_hits ha hh) (mem_hits ha hh') heq) hperm
  simp only [groupOf, hsort, hp]

end Group

/-! ## All groups -/

section Groups
variable {hits hits' : List ChildHit} (sortHits : Sorter hitBefore) (sortGroups : Sorter groupBefore) (cap : Int32)

theorem Sound.perm (hs : Sound hits) (hperm : hits'.Perm hits) : Sound hits' where
  ids := (hperm.map _).nodup_iff.mpr hs.ids
  ulids h hh := hs.ulids h (hperm.mem_iff.mp hh)
  apart h hh hp h' hh' := hs.apart h (hperm.mem_iff.mp hh) hp h' (hperm.mem_iff.mp hh')

theorem Sound.groupKeys (hs : Sound hits) : (((byKey hits).map (groupOf sortHits cap)).map groupKey).Nodup := by
  rw [List.Nodup, List.pairwise_map, List.pairwise_map]
  exact (byKey_keys hits).imp_of_mem fun ha hb hne => hs.groupKey_ne sortHits cap ha hb hne

theorem Sound.groups_subset (hs : Sound hits) (hperm : hits'.Perm hits) {g : ParentHitGroup}
    (hg : g ∈ (byKey hits).map (groupOf sortHits cap)) : g ∈ (byKey hits').map (groupOf sortHits cap) := by
  obtain ⟨a, ha, rfl⟩ := List.mem_map.mp hg
  obtain ⟨b, hb, hfirst⟩ := exists_bucket (hperm.mem_iff.mpr (mem_hits ha (first_mem_all a)))
  have hkey : key a.first = key b.first := key_of_mem hb hfirst
  refine List.mem_map.mpr ⟨b, hb, (hs.groupOf_eq sortHits cap ha ?_ ?_).symm⟩
  · exact (hs.perm hperm).parent_eq (mem_hits hb hfirst) (mem_hits hb (first_mem_all b)) hkey
  · refine (all_perm ha).trans (((hperm.symm.filter _)).trans ?_)
    rw [hkey]
    exact (all_perm hb).symm

theorem Sound.groups_perm (hs : Sound hits) (hperm : hits'.Perm hits) :
    ((byKey hits').map (groupOf sortHits cap)).Perm ((byKey hits).map (groupOf sortHits cap)) := by
  have hnodup := (hs.groupKeys sortHits cap).of_map groupKey
  have hnodup' := ((hs.perm hperm).groupKeys sortHits cap).of_map groupKey
  refine (List.perm_ext_iff_of_nodup hnodup' hnodup).mpr fun g => ?_
  exact ⟨(hs.perm hperm).groups_subset sortHits cap hperm.symm, hs.groups_subset sortHits cap hperm⟩

theorem Sound.dedup_perm (hs : Sound hits) (hperm : hits'.Perm hits) :
    dedupChildrenToParents sortHits sortGroups hits' cap = dedupChildrenToParents sortHits sortGroups hits cap := by
  refine sortGroups.eq_of_perm groupBefore_eq ?_ (hs.groups_perm sortHits _ hperm)
  intro g hg g' hg' heq
  exact List.inj_on_of_nodup_map ((hs.perm hperm).groupKeys sortHits (max 1 cap)) hg hg' heq

theorem mem_dedup {g : ParentHitGroup} (hg : g ∈ dedupChildrenToParents sortHits sortGroups hits cap) :
    ∃ a ∈ byKey hits, groupOf sortHits (max 1 cap) a = g :=
  List.mem_map.mp ((sortGroups.perm _).mem_iff.mp hg)

theorem dedup_ordered (hits : List ChildHit) :
    (dedupChildrenToParents sortHits sortGroups hits cap).Pairwise (Ranks topPlace groupKey) :=
  sortGroups.pairwise groupBefore_eq _

theorem dedup_once (hits : List ChildHit) :
    ((dedupChildrenToParents sortHits sortGroups hits cap).flatMap (·.allHitChildIds)).Perm
      (hits.map (·.childId)) := by
  refine ((sortGroups.perm _).flatMap_right _).trans ?_
  rw [List.flatMap_map]
  have hbuckets : ((byKey hits).flatMap fun a => a.all.map (·.childId)).Perm (hits.map (·.childId)) := by
    rw [← List.map_flatMap]
    exact (Bucket.buckets_perm hits).map _
  exact (List.Perm.flatMap_left _ fun a _ => (sortHits.perm a.all).map _).trans hbuckets

/-- A group presents its hits in rank order; its prefix is right as long as an `int` counts them. -/
theorem Sound.collects (hs : Sound hits) {a : Bucket ChildHit} (ha : a ∈ byKey hits) (hlen : a.all.length ≤ 2 ^ 31) :
    Collects hits cap (groupOf sortHits (max 1 cap) a) (sortHits.sort a.all) where
  parent hp := (sortHits.perm _).trans (hs.all_of_parent ha hp)
  single hp := by
    have hall := hs.all_of_flat ha hp
    refine ⟨a.first, mem_hits ha (first_mem_all a), hp, ?_⟩
    rw [hall, List.perm_singleton.mp (sortHits.perm [a.first])]
  ranked := sortHits.pairwise hitBefore_eq _
  all := rfl
  rerank := by
    have hsort : (sortHits.sort a.all).length ≤ 2 ^ 31 := (sortHits.perm a.all).length_eq ▸ hlen
    show (rerankHits (sortHits.sort a.all) (max 1 cap)).map (·.childId) = ((sortHits.sort a.all).map (·.childId)).take _
    rw [rerankHits_eq_take hsort, toInt_max_one, List.map_take]
    exact List.take_eq_take_min
  first := by
    obtain ⟨h, -, hfront⟩ := exists_front sortHits (max 1 cap) a
    exact ⟨h, hfront⟩

theorem Sound.length_le (hs : Sound hits) {a : Bucket ChildHit} (ha : a ∈ byKey hits)
    (hfew : ∀ p : Bytes, p ≠ [] → (hits.filter fun h => decide (h.parentId = p)).length ≤ 2 ^ 31) :
    a.all.length ≤ 2 ^ 31 := by
  by_cases hp : a.first.parentId = []
  · rw [hs.all_of_flat ha hp, List.length_singleton]
    decide
  · rw [(hs.all_of_parent ha hp).length_eq]
    exact hfew _ hp

/-- A group with more hits than an `int` can count hands too many to the reranker. -/
theorem not_collects {a : Bucket ChildHit} (hlen : 2 ^ 31 < a.all.length) {hs : List ChildHit}
    (h : Collects hits cap (groupOf sortHits (max 1 cap) a) hs) : False := by
  have hsort : 2 ^ 31 < (sortHits.sort a.all).length := (sortHits.perm a.all).length_eq ▸ hlen
  have hcap : (max 1 cap).toInt = max 1 cap.toInt := toInt_max_one cap
  have hmany := length_rerankHits_gt (show 0 ≤ (max 1 cap).toInt by omega) hsort
  have htake := congrArg List.length h.rerank
  rw [groupOf, List.length_map, List.length_take] at htake
  omega

theorem Sound.not_folds (hs : Sound hits) {p : Bytes} (hp : p ≠ [])
    (hmany : 2 ^ 31 < (hits.filter fun h => decide (h.parentId = p)).length) :
    ¬ Folds hits cap (dedupChildrenToParents sortHits sortGroups hits cap) := by
  intro hfolds
  obtain ⟨h, hmem⟩ := List.exists_mem_of_length_pos (lt_of_le_of_lt (Nat.zero_le _) hmany)
  obtain ⟨hh, hparent⟩ := List.mem_filter.mp hmem
  obtain ⟨a, ha, hah⟩ := exists_bucket hh
  have hfirst : a.first.parentId = p :=
    (hs.parent_eq (mem_hits ha (first_mem_all a)) hh (key_of_mem ha hah).symm).trans (by simpa using hparent)
  have hlen := (hs.all_of_parent ha (hfirst ▸ hp)).length_eq
  obtain ⟨group, hgroup⟩ := hfolds.collects (groupOf sortHits (max 1 cap) a)
    ((sortGroups.perm _).mem_iff.mpr (List.mem_map_of_mem ha))
  refine not_collects sortHits cap ?_ hgroup
  rw [hlen, hfirst]
  exact hmany

/-- The fold keeps its promise, for every order of the hits, exactly when no parent has more than 2^31 of them. -/
theorem folds_iff (hs : Sound hits) :
    (Folds hits cap (dedupChildrenToParents sortHits sortGroups hits cap) ∧
      ∀ hits', hits'.Perm hits → dedupChildrenToParents sortHits sortGroups hits' cap =
        dedupChildrenToParents sortHits sortGroups hits cap) ↔
    ∀ p : Bytes, p ≠ [] → (hits.filter fun h => decide (h.parentId = p)).length ≤ 2 ^ 31 := by
  constructor
  · rintro ⟨hfolds, -⟩ p hp
    by_contra hmany
    exact hs.not_folds sortHits sortGroups cap hp (not_le.mp hmany) hfolds
  · intro hfew
    refine ⟨⟨dedup_once sortHits sortGroups cap hits, fun g hg => ?_, dedup_ordered sortHits sortGroups cap hits⟩,
      fun hits' hperm => hs.dedup_perm sortHits sortGroups cap hperm⟩
    obtain ⟨a, ha, rfl⟩ := mem_dedup sortHits sortGroups cap hg
    exact ⟨_, hs.collects sortHits cap ha (hs.length_le ha hfew)⟩

end Groups

/-! ## Two lists of hits -/

def crockford : Nat → Nat → Bytes
  | 0, _ => []
  | k + 1, n => crockford k (n / 32) ++ [kCrockford.getD (n % 32) 0]

theorem isUlid_crockford (n : Nat) : IsUlid (crockford 26 n) := by
  have hspell : ∀ k n, (crockford k n).length = k ∧ ∀ c ∈ crockford k n, c ∈ kCrockford := by
    intro k
    induction k with
    | zero => exact fun n => ⟨rfl, by simp [crockford]⟩
    | succ k ih =>
      intro n
      refine ⟨by rw [crockford, List.length_append, (ih _).1, List.length_singleton], fun c hc => ?_⟩
      rcases List.mem_append.mp hc with hc | hc
      · exact (ih _).2 c hc
      · have hlt : n % 32 < kCrockford.length := Nat.mod_lt n (by decide +kernel)
        rw [List.mem_singleton.mp hc, List.getD_eq_getElem?_getD, List.getElem?_eq_getElem hlt, Option.getD_some]
        exact List.getElem_mem hlt
  exact hspell 26 n

theorem crockford_inj {k m n : Nat} (hm : m < 32 ^ k) (hn : n < 32 ^ k) (h : crockford k m = crockford k n) :
    m = n := by
  induction k generalizing m n with
  | zero => omega
  | succ k ih =>
    obtain ⟨hhigh, hlow⟩ := List.append_inj' h rfl
    rw [pow_succ] at hm hn
    have hdiv : m / 32 = n / 32 := ih (Nat.div_lt_of_lt_mul (by omega)) (Nat.div_lt_of_lt_mul (by omega)) hhigh
    have hdigits : ∀ i < 32, ∀ j < 32, kCrockford.getD i 0 = kCrockford.getD j 0 → i = j := by decide +kernel
    have hmod := hdigits _ (Nat.mod_lt m (by decide)) _ (Nat.mod_lt n (by decide)) (List.cons.inj hlow).1
    omega

def one : Score := ⟨⟨0x3F800000⟩, by decide⟩

def siblings (n : Nat) : List ChildHit := (List.range n).map fun i => ⟨crockford 26 i, crockford 26 n, one⟩

theorem sound_siblings {n : Nat} (hn : n < 32 ^ 26) : Sound (siblings n) where
  ids := by
    rw [siblings, List.map_map]
    refine List.Nodup.map_on (fun i hi j hj heq => ?_) List.nodup_range
    rw [List.mem_range] at hi hj
    exact crockford_inj (hi.trans hn) (hj.trans hn) heq
  ulids h hh _ := by
    obtain ⟨i, -, rfl⟩ := List.mem_map.mp hh
    exact isUlid_crockford n
  apart h hh _ h' hh' heq := by
    obtain ⟨i, -, rfl⟩ := List.mem_map.mp hh
    obtain ⟨j, hj, rfl⟩ := List.mem_map.mp hh'
    rw [List.mem_range] at hj
    exact absurd (crockford_inj (hj.trans hn) hn heq) (Nat.ne_of_lt hj)

def familyHits : List ChildHit := ⟨crockford 26 7, [], one⟩ :: siblings 2

def mergeHits : Sorter hitBefore := Sorter.merge hitBefore_eq

def mergeGroups : Sorter groupBefore := Sorter.merge groupBefore_eq

theorem folds_iff_family : Folds familyHits 1 (dedupChildrenToParents mergeHits mergeGroups familyHits 1) :=
  ((folds_iff mergeHits mergeGroups 1
    ⟨by decide +kernel, fun h hh => (by decide +kernel : ∀ h ∈ familyHits, h.parentId ≠ [] → IsUlid h.parentId) h hh,
      by decide +kernel⟩).mpr fun p _ => (List.length_filter_le _ familyHits).trans (by decide +kernel)).1

/-- With one hit more than an `int` counts, position 2^31 passes the test `static_cast<int>(i) < cap` as well. -/
theorem siblings_not_folded : Sound (siblings (2 ^ 31 + 1)) ∧
    ¬ Folds (siblings (2 ^ 31 + 1)) 3 (dedupChildrenToParents mergeHits mergeGroups (siblings (2 ^ 31 + 1)) 3) := by
  have hsound : Sound (siblings (2 ^ 31 + 1)) := sound_siblings (by norm_num)
  refine ⟨hsound, hsound.not_folds mergeHits mergeGroups 3 (p := crockford 26 (2 ^ 31 + 1)) ?_ ?_⟩
  · exact List.ne_nil_of_length_pos (by rw [(isUlid_crockford _).1]; decide)
  · have hall : (siblings (2 ^ 31 + 1)).filter (fun h => decide (h.parentId = crockford 26 (2 ^ 31 + 1))) =
        siblings (2 ^ 31 + 1) := by
      refine List.filter_eq_self.mpr fun h hh => ?_
      obtain ⟨i, -, rfl⟩ := List.mem_map.mp hh
      exact decide_eq_true rfl
    rw [hall, siblings, List.length_map, List.length_range]
    exact Nat.lt_succ_self _

end Cortrix.Chunker
