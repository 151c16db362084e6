import Cortrix.Lib.Table
import Cortrix.Query.ScatterGather

/-!
# Parent texts of a final response

Two passes put parent texts into a response: one selects the results and writes the texts that fit, a later one checks
depth and byte budget again on whatever the response carries.

* `applyLoop_eq` : the texts are written for the longest prefix of the resolvable targets that fits;
* `enforceResults_within`, `enforceResults_idem`, `enforceResults_eq_self_iff` : the second pass on any response;
* `passes_agree_iff` : when it changes nothing behind the first pass.
-/

namespace Cortrix.Query
open Lib

/-! ## The first pass -/

structure CortrixParent where
  parentText : Bytes
  tokenCount : Int := 0
  byteOffsetStart : Int := 0
  byteOffsetEnd : Int := 0

structure ParentExpansionTarget where
  namespaceId : String
  parentId : String
  resultIndex : Nat

/-- By namespace and parent id. -/
abbrev ParentTextByKey := List ((String × String) × CortrixParent)

/-- The selection from the result with index `i` on, with `window` targets to go. -/
def selectFrom : Nat → Nat → List ResultItem → List ParentExpansionTarget
  | _, _, [] => []
  | 0, _, _ :: _ => []
  | window + 1, i, item :: items =>
    if item.parentId = "" then selectFrom (window + 1) (i + 1) items
    else ⟨item.namespaceId, item.parentId, i⟩ :: selectFrom window (i + 1) items

def selectParentExpansionTargets (resp : CrossNsResponse) (expandTopK : Int) : List ParentExpansionTarget :=
  if expandTopK ≤ 0 then [] else selectFrom expandTopK.toNat 0 resp.results

def assignKey (key : String) (value : Int) (m : List (String × String)) : List (String × String) :=
  upsertRow Prod.fst (key, toString value) m

def expandItem (parent : CortrixParent) (item : ResultItem) : ResultItem :=
  { item with
    parentContent := parent.parentText
    metadata := assignKey "parent_byte_end" parent.byteOffsetEnd
      (assignKey "parent_byte_start" parent.byteOffsetStart
        (assignKey "parent_token_count" parent.tokenCount item.metadata)) }

def applyLoop (parents : ParentTextByKey) (maxBytes : Int) :
    List ParentExpansionTarget → Int → Nat → List ResultItem → List ResultItem × Nat
  | [], _, expanded, results => (results, expanded)
  | t :: ts, used, expanded, results =>
    if results.length ≤ t.resultIndex then applyLoop parents maxBytes ts used expanded results
    else
      match parents.lookup (t.namespaceId, t.parentId) with
      | none => applyLoop parents maxBytes ts used expanded results
      | some parent =>
        let cost : Int := parent.parentText.length
        if 0 < maxBytes ∧ maxBytes < used + cost then (results, expanded)
        else applyLoop parents maxBytes ts (used + cost) (expanded + 1) (results.modify t.resultIndex (expandItem parent))

def applyParentExpansion (resp : CrossNsResponse) (targets : List ParentExpansionTarget) (parents : ParentTextByKey)
    (maxBytes : Int) : CrossNsResponse × Nat :=
  let (results, expanded) := applyLoop parents maxBytes targets 0 0 resp.results
  ({ resp with results }, expanded)

/-- `EnforceParentExpansionBudget` on a response. -/
def enforceResponse (resp : CrossNsResponse) (expandTopK maxBytes : Int) : CrossNsResponse :=
  { resp with results := enforceParentExpansionBudget resp.results expandTopK maxBytes }

/-! ## Budgets -/

/-- A positive budget is kept. -/
def Fits (maxBytes used : Int) : Prop := 0 < maxBytes → used ≤ maxBytes

variable {used : Int} (items : List ResultItem) (item : ResultItem)

theorem Fits.mono {maxBytes used' : Int} (h : Fits maxBytes used') (hle : used ≤ used') : Fits maxBytes used :=
  fun hpos => hle.trans (h hpos)

theorem not_over_iff {maxBytes : Int} : ¬ (0 < maxBytes ∧ maxBytes < used) ↔ Fits maxBytes used := by
  unfold Fits
  rw [not_and, Int.not_lt]

/-- How many of the texts fit, one after the other, behind `used` bytes. -/
def fitCount (maxBytes : Int) : Int → List Nat → Nat
  | _, [] => 0
  | used, cost :: costs =>
    if 0 < maxBytes ∧ maxBytes < used + cost then 0 else fitCount maxBytes (used + cost) costs + 1

theorem le_fitCount_iff {maxBytes : Int} (hused : Fits maxBytes used) (costs : List Nat) (n : Nat) :
    n ≤ fitCount maxBytes used costs ↔ n ≤ costs.length ∧ Fits maxBytes (used + (costs.take n).sum) := by
  induction costs generalizing used n with
  | nil =>
    simp only [fitCount, List.length_nil, List.take_nil, List.sum_nil, Nat.cast_zero, Int.add_zero, hused, and_true]
  | cons cost costs ih =>
    rw [fitCount]
    cases n with
    | zero => simpa using hused
    | succ n =>
      rw [List.take_succ_cons, List.sum_cons, List.length_cons, Nat.cast_add, ← Int.add_assoc]
      split
      · rename_i hover
        have hno : ¬ Fits maxBytes (used + cost + ((costs.take n).sum : Nat)) := fun h =>
          not_over_iff.mpr (h.mono (by omega)) hover
        exact iff_of_false (by omega) fun h => hno h.2
      · rename_i hover
        rw [Nat.add_le_add_iff_right, ih (not_over_iff.mp hover), Nat.add_le_add_iff_right]

theorem fitCount_isGreatest (maxBytes : Int) (costs : List Nat) :
    IsGreatest {n : Nat | n ≤ costs.length ∧ Fits maxBytes (costs.take n).sum} (fitCount maxBytes 0 costs) := by
  have h0 : Fits maxBytes 0 := fun h => h.le
  have hiff := le_fitCount_iff h0 costs
  simp only [Int.zero_add] at hiff
  exact ⟨(hiff _).mp le_rfl, fun n hn => (hiff n).mpr hn⟩

/-! ## What the first pass writes -/

def resolvable (parents : ParentTextByKey) (size : Nat) (targets : List ParentExpansionTarget) :
    List (Nat × CortrixParent) :=
  targets.filterMap fun t =>
    if t.resultIndex < size then (parents.lookup (t.namespaceId, t.parentId)).map (t.resultIndex, ·) else none

def cost (r : Nat × CortrixParent) : Nat := r.2.parentText.length

def expandAt (results : List ResultItem) (r : Nat × CortrixParent) : List ResultItem :=
  results.modify r.1 (expandItem r.2)

theorem applyLoop_eq (parents : ParentTextByKey) (maxBytes : Int) (targets : List ParentExpansionTarget) (used : Int)
    (expanded : Nat) (results : List ResultItem) :
    applyLoop parents maxBytes targets used expanded results =
      (((resolvable parents results.length targets).take
          (fitCount maxBytes used ((resolvable parents results.length targets).map cost))).foldl expandAt results,
        expanded + fitCount maxBytes used ((resolvable parents results.length targets).map cost)) := by
  induction targets generalizing used expanded results with
  | nil => rfl
  | cons t ts ih =>
    rw [applyLoop]
    by_cases hstale : results.length ≤ t.resultIndex
    · have hr : resolvable parents results.length (t :: ts) = resolvable parents results.length ts := by
        rw [resolvable, List.filterMap_cons_none (by simp [Nat.not_lt.mpr hstale]), resolvable]
      rw [if_pos hstale, hr, ih]
    · have hlt : t.resultIndex < results.length := Nat.not_le.mp hstale
      rw [if_neg hstale]
      cases hp : parents.lookup (t.namespaceId, t.parentId) with
      | none =>
        have hr : resolvable parents results.length (t :: ts) = resolvable parents results.length ts := by
          rw [resolvable, List.filterMap_cons_none (by simp [hlt, hp]), resolvable]
        rw [hr]
        exact ih _ _ _
      | some parent =>
        have hr : resolvable parents results.length (t :: ts) =
            (t.resultIndex, parent) :: resolvable parents results.length ts := by
          rw [resolvable, List.filterMap_cons_some (by simp [hlt, hp]; rfl), resolvable]
        rw [hr, List.map_cons, fitCount]
        dsimp only
        by_cases hover : 0 < maxBytes ∧ maxBytes < used + cost (t.resultIndex, parent)
        · have hover' : 0 < maxBytes ∧ maxBytes < used + parent.parentText.length := hover
          rw [if_pos hover, if_pos hover', List.take_zero, List.foldl_nil, Nat.add_zero]
        · have hover' : ¬ (0 < maxBytes ∧ maxBytes < used + parent.parentText.length) := hover
          rw [if_neg hover, if_neg hover', ih, List.length_modify, List.take_succ_cons, List.foldl_cons, expandAt,
            Nat.add_assoc, Nat.add_comm 1]
          rfl

theorem le_of_mem_selectFrom {window i : Nat} {items : List ResultItem} {t : ParentExpansionTarget}
    (ht : t ∈ selectFrom window i items) : i ≤ t.resultIndex := by
  induction items generalizing window i with
  | nil => simp [selectFrom] at ht
  | cons item items ih =>
    cases window with
    | zero => simp [selectFrom] at ht
    | succ window =>
      rw [selectFrom] at ht
      split at ht
      · exact (Nat.le_succ i).trans (ih ht)
      · obtain rfl | ht := List.mem_cons.mp ht
        · exact le_rfl
        · exact (Nat.le_succ i).trans (ih ht)

theorem selectFrom_eq (window i : Nat) (items : List ResultItem) :
    selectFrom window i items =
      (((items.zipIdx i).filter fun e => e.1.parentId ≠ "").take window).map
        fun e => ⟨e.1.namespaceId, e.1.parentId, e.2⟩ := by
  induction items generalizing window i with
  | nil => simp [selectFrom]
  | cons item items ih =>
    cases window with
    | zero => simp [selectFrom]
    | succ window =>
      rw [selectFrom, List.zipIdx_cons]
      split
      · rename_i hempty
        rw [List.filter_cons_of_neg (by simp [hempty]), ih]
      · rename_i hlinked
        rw [List.filter_cons_of_pos (by simp [hlinked]), List.take_succ_cons, List.map_cons, ih]

theorem selectFrom_ascending (window i : Nat) (items : List ResultItem) :
    (selectFrom window i items).Pairwise fun t t' => t.resultIndex < t'.resultIndex := by
  induction items generalizing window i with
  | nil => simp [selectFrom]
  | cons item items ih =>
    cases window with
    | zero => simp [selectFrom]
    | succ window =>
      rw [selectFrom]
      split
      · exact ih _ _
      · exact List.pairwise_cons.mpr ⟨fun t ht => le_of_mem_selectFrom ht, ih _ _⟩

theorem resolvable_ascending (parents : ParentTextByKey) (size : Nat) {targets : List ParentExpansionTarget}
    (h : targets.Pairwise fun t t' => t.resultIndex < t'.resultIndex) :
    (resolvable parents size targets).Pairwise fun r r' => r.1 < r'.1 := by
  have hindex : ∀ (t : ParentExpansionTarget) (r : Nat × CortrixParent), (if t.resultIndex < size then
      (parents.lookup (t.namespaceId, t.parentId)).map (t.resultIndex, ·) else none) = some r →
      r.1 = t.resultIndex := by
    intro t r hr
    split at hr
    · obtain ⟨parent, -, rfl⟩ := Option.map_eq_some_iff.mp hr
      rfl
    · cases hr
  refine List.pairwise_filterMap.mpr (h.imp fun {t t'} hlt r hr r' hr' => ?_)
  rw [hindex t r hr, hindex t' r' hr']
  exact hlt

theorem length_foldl_expandAt (rs : List (Nat × CortrixParent)) (results : List ResultItem) :
    (rs.foldl expandAt results).length = results.length := by
  induction rs generalizing results with
  | nil => rfl
  | cons r rs ih => rw [List.foldl_cons, ih, expandAt, List.length_modify]

theorem lookup_eq_some_iff {rs : List (Nat × CortrixParent)} (hasc : rs.Pairwise fun r r' => r.1 < r'.1) {i : Nat}
    {parent : CortrixParent} : rs.lookup i = some parent ↔ (i, parent) ∈ rs := by
  induction rs with
  | nil => simp
  | cons r rs ih =>
    obtain ⟨hfirst, hrest⟩ := List.pairwise_cons.mp hasc
    rw [List.lookup_cons, List.mem_cons]
    by_cases hi : i = r.1
    · subst hi
      have hnot : (r.1, parent) ∉ rs := fun hmem => absurd (hfirst _ hmem) (lt_irrefl _)
      rw [beq_self_eq_true]
      simp only [Option.some.injEq, hnot, or_false, Prod.ext_iff, true_and, eq_comm]
    · have hne : (i, parent) ≠ r := fun heq => hi (congrArg Prod.fst heq)
      rw [beq_eq_false_iff_ne.mpr hi]
      simp only [ih hrest, hne, false_or]

theorem getElem?_foldl_expandAt {rs : List (Nat × CortrixParent)} (hasc : rs.Pairwise fun r r' => r.1 < r'.1)
    (results : List ResultItem) (i : Nat) :
    (rs.foldl expandAt results)[i]? = results[i]?.map fun item =>
      match rs.lookup i with
      | some parent => expandItem parent item
      | none => item := by
  induction rs generalizing results with
  | nil => simp
  | cons r rs ih =>
    obtain ⟨j, parent⟩ := r
    obtain ⟨hfirst, hrest⟩ := List.pairwise_cons.mp hasc
    rw [List.foldl_cons, ih hrest, expandAt, List.getElem?_modify, List.lookup_cons]
    by_cases hij : j = i
    · subst hij
      have hnone : rs.lookup j = none := List.lookup_eq_none_iff.mpr fun r' hr' => by
        simpa using (hfirst r' hr').ne
      cases results[j]? <;> simp [hnone]
    · have hbeq : (i == j) = false := beq_eq_false_iff_ne.mpr (Ne.symm hij)
      rw [hbeq]
      cases results[i]? <;> simp [hij]

/-! ## Texts on results -/

def textBytes (items : List ResultItem) : Nat := (items.map fun item => item.parentContent.length).sum

def expandedCount (items : List ResultItem) : Nat := items.countP fun item => !item.parentContent.isEmpty

theorem textBytes_cons (items : List ResultItem) :
    textBytes (item :: items) = item.parentContent.length + textBytes items := by
  rw [textBytes, List.map_cons, List.sum_cons, textBytes]

theorem expandedCount_cons (items : List ResultItem) :
    expandedCount (item :: items) = expandedCount items + if item.parentContent.isEmpty then 0 else 1 := by
  rw [expandedCount, List.countP_cons, expandedCount]
  cases item.parentContent.isEmpty <;> rfl

theorem expandAt_cons_zero (items : List ResultItem) (parent : CortrixParent) :
    expandAt (item :: items) (0, parent) = expandItem parent item :: items := rfl

theorem expandAt_cons_succ (items : List ResultItem) (i : Nat) (parent : CortrixParent) :
    expandAt (item :: items) (i + 1, parent) = item :: expandAt items (i, parent) := rfl

theorem textBytes_expandAt_le (r : Nat × CortrixParent) : textBytes (expandAt items r) ≤ textBytes items + cost r := by
  obtain ⟨i, parent⟩ := r
  induction items generalizing i with
  | nil => simp [expandAt, textBytes]
  | cons item items ih =>
    cases i with
    | zero =>
      rw [expandAt_cons_zero, textBytes_cons, textBytes_cons]
      simp only [expandItem, cost]
      omega
    | succ i =>
      have := ih i
      rw [expandAt_cons_succ, textBytes_cons, textBytes_cons]
      simp only [cost] at this ⊢
      omega

theorem expandedCount_expandAt_le (r : Nat × CortrixParent) :
    expandedCount (expandAt items r) ≤ expandedCount items + 1 := by
  obtain ⟨i, parent⟩ := r
  induction items generalizing i with
  | nil => simp [expandAt, expandedCount]
  | cons item items ih =>
    cases i with
    | zero =>
      rw [expandAt_cons_zero, expandedCount_cons, expandedCount_cons]
      split <;> omega
    | succ i =>
      have := ih i
      rw [expandAt_cons_succ, expandedCount_cons, expandedCount_cons]
      omega

theorem foldl_expandAt_le (rs : List (Nat × CortrixParent)) (items : List ResultItem) :
    textBytes (rs.foldl expandAt items) ≤ textBytes items + (rs.map cost).sum ∧
      expandedCount (rs.foldl expandAt items) ≤ expandedCount items + rs.length := by
  induction rs generalizing items with
  | nil => simp
  | cons r rs ih =>
    obtain ⟨hbytes, hcount⟩ := ih (expandAt items r)
    have h1 := textBytes_expandAt_le items r
    have h2 := expandedCount_expandAt_le items r
    rw [List.foldl_cons, List.map_cons, List.sum_cons, List.length_cons]
    omega

/-! ## The second pass -/

/-- Depth and byte budget are obeyed. -/
structure Within (expandTopK maxBytes : Int) (items : List ResultItem) : Prop where
  depth : expandedCount items ≤ expandTopK.toNat
  bytes : Fits maxBytes (textBytes items)

/-- A key tells of an expanded span. -/
def Described (item : ResultItem) : Prop := ∃ kv ∈ item.metadata, kv.1 ∈ expansionKeys

/-- A result without a text is not described. -/
def NothingHollow (items : List ResultItem) : Prop := ∀ item ∈ items, item.parentContent = [] → ¬ Described item

theorem dropExpansionMetadata_eq_self {item : ResultItem} : dropExpansionMetadata item = item ↔ ¬ Described item := by
  have hfilter : (item.metadata.filter fun kv => !expansionKeys.contains kv.1) = item.metadata ↔ ¬ Described item := by
    rw [List.filter_eq_self]
    simp [Described]
  rw [← hfilter]
  constructor
  · intro h
    exact congrArg ResultItem.metadata h
  · intro h
    rw [dropExpansionMetadata, h]

theorem not_described_dropExpansionMetadata : ¬ Described (dropExpansionMetadata item) := by
  rintro ⟨kv, hmem, hkey⟩
  have := (List.mem_filter.mp hmem).2
  simp [hkey] at this

theorem window_eq (expandTopK : Int) : (if 0 < expandTopK then expandTopK.toNat else 0) = expandTopK.toNat := by
  split <;> omega

theorem enforceBudget_within {depth : Nat} {maxBytes : Int} {kept : Nat} (spent : Bool) (hkept : kept ≤ depth)
    (hused : Fits maxBytes used) :
    kept + expandedCount (enforceBudget depth maxBytes kept used spent items) ≤ depth ∧
      Fits maxBytes (used + textBytes (enforceBudget depth maxBytes kept used spent items)) ∧
      NothingHollow (enforceBudget depth maxBytes kept used spent items) := by
  induction items generalizing kept used spent with
  | nil => exact ⟨hkept, by simpa [enforceBudget, textBytes] using hused, by simp [enforceBudget, NothingHollow]⟩
  | cons item items ih =>
    have hclear : ∀ cleared rest, cleared.parentContent = [] → ¬ Described cleared →
        (kept + expandedCount rest ≤ depth ∧ Fits maxBytes (used + textBytes rest) ∧ NothingHollow rest) →
        kept + expandedCount (cleared :: rest) ≤ depth ∧ Fits maxBytes (used + textBytes (cleared :: rest)) ∧
          NothingHollow (cleared :: rest) := by
      intro cleared rest hempty hbare hrest
      obtain ⟨h1, h2, h3⟩ := hrest
      refine ⟨?_, ?_, List.forall_mem_cons.mpr ⟨fun _ => hbare, h3⟩⟩
      · simpa [expandedCount_cons, hempty] using h1
      · simpa [textBytes_cons, hempty] using h2
    rw [enforceBudget]
    dsimp only
    split
    · rename_i hempty
      exact hclear _ _ (List.isEmpty_iff.mp hempty) (not_described_dropExpansionMetadata _) (ih spent hkept hused)
    · rename_i hfull
      split
      · exact hclear _ _ rfl (not_described_dropExpansionMetadata _) (ih _ hkept hused)
      · rename_i hin
        simp only [Bool.or_eq_true, decide_eq_true_eq, not_or, Nat.not_le] at hin
        obtain ⟨⟨-, hdepth⟩, hbytes⟩ := hin
        obtain ⟨h1, h2, h3⟩ := ih spent (show kept + 1 ≤ depth from hdepth) (not_over_iff.mp hbytes)
        refine ⟨?_, ?_, List.forall_mem_cons.mpr ⟨fun hempty => absurd (List.isEmpty_iff.mpr hempty) hfull, h3⟩⟩
        · rw [expandedCount_cons, if_neg hfull]
          omega
        · rw [textBytes_cons, Nat.cast_add, ← Int.add_assoc]
          exact h2

theorem enforceResults_within (expandTopK maxBytes : Int) :
    Within expandTopK maxBytes (enforceParentExpansionBudget items expandTopK maxBytes) ∧
      NothingHollow (enforceParentExpansionBudget items expandTopK maxBytes) := by
  obtain ⟨h1, h2, h3⟩ := enforceBudget_within items false (Nat.zero_le (if 0 < expandTopK then expandTopK.toNat else 0))
    (show Fits maxBytes 0 from fun h => h.le)
  rw [Nat.zero_add] at h1
  rw [Int.zero_add] at h2
  exact ⟨⟨window_eq expandTopK ▸ h1, h2⟩, h3⟩

theorem enforceBudget_of_within {depth : Nat} {maxBytes : Int} {items : List ResultItem} {kept : Nat}
    (hcount : kept + expandedCount items ≤ depth) (hbytes : Fits maxBytes (used + textBytes items))
    (hhollow : NothingHollow items) : enforceBudget depth maxBytes kept used false items = items := by
  induction items generalizing kept used with
  | nil => rfl
  | cons item items ih =>
    obtain ⟨hitem, hitems⟩ := List.forall_mem_cons.mp hhollow
    rw [expandedCount_cons] at hcount
    rw [textBytes_cons, Nat.cast_add, ← Int.add_assoc] at hbytes
    rw [enforceBudget]
    split
    · rename_i hempty
      have hnil := List.isEmpty_iff.mp hempty
      rw [if_pos hempty] at hcount
      rw [hnil, List.length_nil, Nat.cast_zero, Int.add_zero] at hbytes
      rw [dropExpansionMetadata_eq_self.mpr (hitem hnil), ih hcount hbytes hitems]
    · rename_i hfull
      rw [if_neg hfull] at hcount
      have hdepth : ¬ depth ≤ kept := by omega
      have hover : ¬ (0 < maxBytes ∧ maxBytes < used + item.parentContent.length) :=
        not_over_iff.mpr (hbytes.mono (by omega))
      rw [if_neg (by simp [hdepth, hover]), ih (by omega) hbytes hitems]

theorem enforceResults_eq_self_iff (expandTopK maxBytes : Int) :
    enforceParentExpansionBudget items expandTopK maxBytes = items ↔
      Within expandTopK maxBytes items ∧ NothingHollow items := by
  constructor
  · intro h
    rw [← h]
    exact enforceResults_within items expandTopK maxBytes
  · rintro ⟨hwithin, hhollow⟩
    refine enforceBudget_of_within ?_ ?_ hhollow
    · rw [window_eq, Nat.zero_add]
      exact hwithin.depth
    · rw [Int.zero_add]
      exact hwithin.bytes

theorem enforceResults_idem (expandTopK maxBytes : Int) :
    enforceParentExpansionBudget (enforceParentExpansionBudget items expandTopK maxBytes) expandTopK maxBytes =
      enforceParentExpansionBudget items expandTopK maxBytes :=
  (enforceResults_eq_self_iff _ _ _).mpr (enforceResults_within items expandTopK maxBytes)

/-! ## The two passes together -/

section
variable (resp : CrossNsResponse) (expandTopK maxBytes : Int) (parents : ParentTextByKey)

/-- The first `expandTopK` results with a parent id, and where they stand. -/
def linked : List (ResultItem × Nat) :=
  (resp.results.zipIdx.filter fun e => e.1.parentId ≠ "").take expandTopK.toNat

/-- Those of them whose parent exists. -/
def candidates : List (Nat × CortrixParent) :=
  (linked resp expandTopK).filterMap fun e => (parents.lookup (e.1.namespaceId, e.1.parentId)).map (e.2, ·)

/-- The longest prefix of them that fits. -/
def charged : List (Nat × CortrixParent) :=
  (candidates resp expandTopK parents).take (fitCount maxBytes 0 ((candidates resp expandTopK parents).map cost))

def expandedResponse : CrossNsResponse :=
  (applyParentExpansion resp (selectParentExpansionTargets resp expandTopK) parents maxBytes).1

/-- The keys are written with a text, and only then. -/
def KeysWithText (before after : ResultItem) : Prop :=
  (after.parentContent = [] → after.metadata = before.metadata) ∧
    (after.parentContent ≠ [] → ∃ parent, after = expandItem parent before)

/-- The passes agree on a response: the first one keeps within depth and budget, expands the longest prefix of the
resolvable targets that fits and describes the expanded results only, and the second one changes nothing. -/
structure PassesAgree : Prop where
  within : Within expandTopK maxBytes (expandedResponse resp expandTopK maxBytes parents).results
  longest : ∃ n, IsGreatest {n : Nat | n ≤ (candidates resp expandTopK parents).length ∧
      Fits maxBytes (((candidates resp expandTopK parents).map cost).take n).sum} n ∧
    (expandedResponse resp expandTopK maxBytes parents).results =
      ((candidates resp expandTopK parents).take n).foldl expandAt resp.results
  keys : List.Forall₂ KeysWithText resp.results (expandedResponse resp expandTopK maxBytes parents).results
  settled : enforceResponse (expandedResponse resp expandTopK maxBytes parents) expandTopK maxBytes =
    expandedResponse resp expandTopK maxBytes parents

/-- No empty text is charged, and a result that already tells of a span is one that gets a text. -/
structure Presentable : Prop where
  texts : ∀ r ∈ charged resp expandTopK maxBytes parents, r.2.parentText ≠ []
  stale : ∀ i item, resp.results[i]? = some item → Described item →
    ∃ r ∈ charged resp expandTopK maxBytes parents, r.1 = i

end

variable {resp : CrossNsResponse} {expandTopK maxBytes : Int} {parents : ParentTextByKey}

theorem selected_eq_linked (resp : CrossNsResponse) (expandTopK : Int) :
    selectParentExpansionTargets resp expandTopK =
      (linked resp expandTopK).map fun e => ⟨e.1.namespaceId, e.1.parentId, e.2⟩ := by
  rw [selectParentExpansionTargets, linked]
  split
  · rw [Int.toNat_of_nonpos ‹_›, List.take_zero, List.map_nil]
  · exact selectFrom_eq _ _ _

theorem resolvable_selected (resp : CrossNsResponse) (expandTopK : Int) (parents : ParentTextByKey) :
    resolvable parents resp.results.length (selectParentExpansionTargets resp expandTopK) =
      candidates resp expandTopK parents := by
  rw [selected_eq_linked, resolvable, candidates, List.filterMap_map]
  refine List.filterMap_congr fun e he => ?_
  have hmem := (List.mem_filter.mp (List.mem_of_mem_take he)).1
  have hlt : e.2 < resp.results.length := by
    have := List.snd_lt_add_of_mem_zipIdx hmem
    omega
  exact if_pos hlt

theorem expandedResponse_results :
    (expandedResponse resp expandTopK maxBytes parents).results =
      (charged resp expandTopK maxBytes parents).foldl expandAt resp.results := by
  rw [expandedResponse, applyParentExpansion, applyLoop_eq, resolvable_selected]
  rfl

theorem selected_ascending (resp : CrossNsResponse) (expandTopK : Int) :
    (selectParentExpansionTargets resp expandTopK).Pairwise fun t t' => t.resultIndex < t'.resultIndex := by
  rw [selectParentExpansionTargets]
  split
  · exact List.Pairwise.nil
  · exact selectFrom_ascending _ _ _

theorem charged_ascending :
    (charged resp expandTopK maxBytes parents).Pairwise fun r r' => r.1 < r'.1 :=
  (resolvable_selected resp expandTopK parents ▸
    resolvable_ascending parents _ (selected_ascending resp expandTopK)).sublist (List.take_sublist _ _)

theorem textBytes_of_bare {items : List ResultItem} (h : ∀ item ∈ items, item.parentContent = []) :
    textBytes items = 0 := by
  induction items with
  | nil => rfl
  | cons item items ih =>
    obtain ⟨hitem, hitems⟩ := List.forall_mem_cons.mp h
    rw [textBytes_cons, hitem, ih hitems, List.length_nil]

theorem expandedResponse_within (hbare : ∀ item ∈ resp.results, item.parentContent = []) :
    Within expandTopK maxBytes (expandedResponse resp expandTopK maxBytes parents).results := by
  have hbytes : textBytes resp.results = 0 := textBytes_of_bare hbare
  have hcount : expandedCount resp.results = 0 :=
    List.countP_eq_zero.mpr fun item hitem => by simp [hbare item hitem]
  have hle := foldl_expandAt_le (charged resp expandTopK maxBytes parents) resp.results
  rw [← expandedResponse_results, hbytes, hcount, Nat.zero_add, Nat.zero_add] at hle
  constructor
  · have hlen : (charged resp expandTopK maxBytes parents).length ≤ expandTopK.toNat :=
      (List.length_take_le' _ _).trans ((List.length_filterMap_le _ _).trans (List.length_take_le _ _))
    exact hle.2.trans hlen
  · have hfit := (fitCount_isGreatest maxBytes ((candidates resp expandTopK parents).map cost)).1.2
    rw [← List.map_take] at hfit
    exact hfit.mono (Int.ofNat_le.mpr hle.1)

theorem expandItem_described (parent : CortrixParent) (item : ResultItem) : Described (expandItem parent item) :=
  ⟨_, mem_upsertRow.mpr (.inl rfl), by simp [expansionKeys]⟩

theorem expandedResponse_getElem? (i : Nat) :
    (expandedResponse resp expandTopK maxBytes parents).results[i]? = resp.results[i]?.map fun item =>
      match (charged resp expandTopK maxBytes parents).lookup i with
      | some parent => expandItem parent item
      | none => item := by
  rw [expandedResponse_results, getElem?_foldl_expandAt charged_ascending]

theorem lt_of_mem_charged {r : Nat × CortrixParent} (hr : r ∈ charged resp expandTopK maxBytes parents) :
    r.1 < resp.results.length := by
  obtain ⟨e, he, hr⟩ := List.mem_filterMap.mp (List.mem_of_mem_take hr)
  obtain ⟨parent, -, rfl⟩ := Option.map_eq_some_iff.mp hr
  have := List.snd_lt_add_of_mem_zipIdx (List.mem_filter.mp (List.mem_of_mem_take he)).1
  omega

theorem nothingHollow_iff (hbare : ∀ item ∈ resp.results, item.parentContent = []) :
    NothingHollow (expandedResponse resp expandTopK maxBytes parents).results ↔
      Presentable resp expandTopK maxBytes parents := by
  constructor
  · intro h
    constructor
    · rintro ⟨i, parent⟩ hr htext
      obtain ⟨item, hitem⟩ : ∃ item, resp.results[i]? = some item :=
        ⟨_, List.getElem?_eq_getElem (lt_of_mem_charged hr)⟩
      have hafter : (expandedResponse resp expandTopK maxBytes parents).results[i]? = some (expandItem parent item) := by
        rw [expandedResponse_getElem?, hitem, (lookup_eq_some_iff charged_ascending).mpr hr, Option.map_some]
      exact h _ (List.mem_of_getElem? hafter) htext (expandItem_described parent item)
    · intro i item hitem hdesc
      cases hl : (charged resp expandTopK maxBytes parents).lookup i with
      | some parent => exact ⟨(i, parent), (lookup_eq_some_iff charged_ascending).mp hl, rfl⟩
      | none =>
        have hafter : (expandedResponse resp expandTopK maxBytes parents).results[i]? = some item := by
          rw [expandedResponse_getElem?, hitem, hl, Option.map_some]
        exact absurd hdesc (h item (List.mem_of_getElem? hafter) (hbare item (List.mem_of_getElem? hitem)))
  · rintro ⟨htexts, hstale⟩ after hmem hempty hdesc
    obtain ⟨i, hi⟩ := List.mem_iff_getElem?.mp hmem
    rw [expandedResponse_getElem?] at hi
    obtain ⟨item, hitem, rfl⟩ := Option.map_eq_some_iff.mp hi
    cases hl : (charged resp expandTopK maxBytes parents).lookup i with
    | some parent =>
      simp only [hl] at hempty
      exact htexts _ ((lookup_eq_some_iff charged_ascending).mp hl) hempty
    | none =>
      simp only [hl] at hdesc
      obtain ⟨⟨j, parent⟩, hr, rfl⟩ := hstale i item hitem hdesc
      rw [(lookup_eq_some_iff charged_ascending).mpr hr] at hl
      cases hl

theorem keys_of_presentable (hbare : ∀ item ∈ resp.results, item.parentContent = [])
    (h : Presentable resp expandTopK maxBytes parents) :
    List.Forall₂ KeysWithText resp.results (expandedResponse resp expandTopK maxBytes parents).results := by
  have hlen : (expandedResponse resp expandTopK maxBytes parents).results.length = resp.results.length := by
    rw [expandedResponse_results, length_foldl_expandAt]
  refine List.forall₂_iff_get.mpr ⟨hlen.symm, fun i h1 h2 => ?_⟩
  have hi : (expandedResponse resp expandTopK maxBytes parents).results[i]? = _ := expandedResponse_getElem? i
  rw [List.getElem?_eq_getElem h2, List.getElem?_eq_getElem h1, Option.map_some, Option.some.injEq] at hi
  rw [List.get_eq_getElem, List.get_eq_getElem, hi]
  cases hl : (charged resp expandTopK maxBytes parents).lookup i with
  | some parent =>
    have htext := h.texts _ ((lookup_eq_some_iff charged_ascending).mp hl)
    exact ⟨fun hempty => absurd hempty htext, fun _ => ⟨parent, rfl⟩⟩
  | none => exact ⟨fun _ => rfl, fun hfull => absurd (hbare _ (List.getElem_mem h1)) hfull⟩

/-- The passes agree exactly on the presentable responses; and on every response the second pass obeys depth and budget
and, run again, changes nothing. -/
theorem passes_agree_iff (resp : CrossNsResponse) (expandTopK maxBytes : Int) (parents : ParentTextByKey)
    (hbare : ∀ item ∈ resp.results, item.parentContent = []) :
    (PassesAgree resp expandTopK maxBytes parents ↔ Presentable resp expandTopK maxBytes parents) ∧
      ∀ any : CrossNsResponse, Within expandTopK maxBytes (enforceResponse any expandTopK maxBytes).results ∧
        enforceResponse (enforceResponse any expandTopK maxBytes) expandTopK maxBytes =
          enforceResponse any expandTopK maxBytes := by
  refine ⟨⟨fun h => ?_, fun h => ?_⟩, fun any => ⟨(enforceResults_within _ _ _).1, ?_⟩⟩
  · have hsettled := (enforceResults_eq_self_iff _ _ _).mp (congrArg CrossNsResponse.results h.settled)
    exact (nothingHollow_iff hbare).mp hsettled.2
  · have hwithin : Within expandTopK maxBytes (expandedResponse resp expandTopK maxBytes parents).results :=
      expandedResponse_within hbare
    have hgreatest := fitCount_isGreatest maxBytes ((candidates resp expandTopK parents).map cost)
    rw [List.length_map] at hgreatest
    refine ⟨hwithin, ⟨_, hgreatest, expandedResponse_results⟩, keys_of_presentable hbare h, ?_⟩
    rw [enforceResponse, (enforceResults_eq_self_iff _ _ _).mpr ⟨hwithin, (nothingHollow_iff hbare).mpr h⟩]
  · rw [enforceResponse, enforceResponse, enforceResults_idem]

def linkedItem (metadata : List (String × String)) : ResultItem :=
  ⟨"c", "p", "ns", [0x61], [], ⟨0⟩, ⟨0⟩, {}, "", metadata, "chunk"⟩

theorem passes_agree_text :
    (PassesAgree { results := [linkedItem []] } 1 8 [(("ns", "p"), ⟨[0x61, 0x62], 1, 0, 2⟩)] ↔
      Presentable { results := [linkedItem []] } 1 8 [(("ns", "p"), ⟨[0x61, 0x62], 1, 0, 2⟩)]) ∧
    ∀ any : CrossNsResponse, Within 1 8 (enforceResponse any 1 8).results ∧
      enforceResponse (enforceResponse any 1 8) 1 8 = enforceResponse any 1 8 :=
  passes_agree_iff _ 1 8 _ (by decide)

/-- An empty parent row: the first pass describes a span, the second one takes the description away. -/
theorem empty_parent_disagrees :
    ¬ PassesAgree { results := [linkedItem []] } 1 8 [(("ns", "p"), ⟨[], 1, 0, 0⟩)] := by
  intro h
  have hsettled := congrArg CrossNsResponse.results h.settled
  revert hsettled
  decide +kernel

end Cortrix.Query
