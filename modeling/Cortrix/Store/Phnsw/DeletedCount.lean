import Cortrix.Store.Phnsw.PHnsw

/-!
# The deleted counter

`deleted_count_` next to hnswlib's own table of elements, through every record applied, every snapshot and every
recovery.

* `Exact` : both counters are the number of elements marked deleted; `deleted_count_exact` : over every run.
-/

namespace Cortrix.Store.Phnsw

/-! ## hnswlib's elements -/

structure Element where
  label : UInt64
  vector : List UInt32
  deleted : Bool

/-- What `saveIndex` writes; an element's place in the list is its internal id, and `label_lookup_` gives each label
one element. -/
structure IndexImage where
  maxElements : Nat
  elements : List Element
  nodup_labels : (elements.map Element.label).Nodup

namespace IndexImage

def find (i : IndexImage) (label : UInt64) : Option Element := i.elements.find? fun x => x.label == label

def update (i : IndexImage) (label : UInt64) (vector : List UInt32) (deleted : Bool) : IndexImage where
  maxElements := i.maxElements
  elements := i.elements.map fun x => if x.label = label then ⟨label, vector, deleted⟩ else x
  nodup_labels := by
    have hlabels : (i.elements.map fun x => if x.label = label then ⟨label, vector, deleted⟩ else x).map Element.label =
        i.elements.map Element.label := by
      rw [List.map_map]
      refine List.map_congr_left fun x _ => ?_
      by_cases hx : x.label = label <;> simp [hx]
    rw [hlabels]
    exact i.nodup_labels

def append (i : IndexImage) (x : Element) (h : i.find x.label = none) : IndexImage where
  maxElements := i.maxElements
  elements := i.elements ++ [x]
  nodup_labels := by
    rw [List.map_append, List.map_singleton]
    refine List.nodup_append.mpr ⟨i.nodup_labels, List.nodup_singleton _, ?_⟩
    rintro _ ha _ hb rfl
    obtain ⟨y, hy, hlabel⟩ := List.mem_map.mp ha
    have hne := List.find?_eq_none.mp h y hy
    rw [List.mem_singleton.mp hb] at hlabel
    exact hne (by simp [hlabel])

def marked (i : IndexImage) : Nat := i.elements.countP (·.deleted)

end IndexImage

/-- The index in memory: the elements and `num_deleted_`. -/
structure Hnsw extends IndexImage where
  numDeleted : Nat

namespace Hnsw

def empty (maxElements : Nat) : Hnsw := ⟨⟨maxElements, [], List.nodup_nil⟩, 0⟩

/-- `loadIndex`: the marks are counted anew; a file with more elements than asked for keeps its own bound. -/
def loadIndex (maxElements : Nat) (file : IndexImage) : Hnsw :=
  { file with maxElements := if maxElements < file.elements.length then file.maxElements else maxElements,
              numDeleted := file.marked }

def isMarkedDeleted (h : Hnsw) (label : UInt64) : Bool := (h.find label).any (·.deleted)

def markDelete (h : Hnsw) (label : UInt64) : Option Hnsw :=
  match h.find label with
  | none => none
  | some x =>
    if x.deleted then none else some ⟨h.update label x.vector true, h.numDeleted + 1⟩

def unmarkDelete (h : Hnsw) (label : UInt64) : Option Hnsw :=
  match h.find label with
  | none => none
  | some x =>
    if x.deleted then some ⟨h.update label x.vector false, h.numDeleted - 1⟩ else none

/-- `addPoint` with `allow_replace_deleted_`; no element is replaced. -/
def addPoint (h : Hnsw) (vec : List UInt32) (label : UInt64) : Option Hnsw :=
  match hfind : h.find label with
  | some x => if x.deleted then none else some { h with toIndexImage := h.update label vec false }
  | none =>
    if h.maxElements ≤ h.elements.length then none
    else some { h with toIndexImage := h.append ⟨label, vec, false⟩ hfind }

end Hnsw

/-! ## The index with its counter -/

/-- `index_`, `deleted_count_` and `applied_lsn_`. -/
structure Counted where
  index : Hnsw
  deletedCount : Nat
  appliedLsn : UInt64

namespace Counted

/-- `addPoint`; what it throws leaves what was done before it. -/
def addLocked (m : Counted) (e : WalEntry) : Counted :=
  match m.index.addPoint e.vector e.blockId with
  | none => m
  | some index => { m with index }

def applyInsertLocked (m : Counted) (e : WalEntry) : Counted :=
  if m.index.isMarkedDeleted e.blockId then
    match m.index.unmarkDelete e.blockId with
    | none => m
    | some index =>
      addLocked { m with index, deletedCount := if 0 < m.deletedCount then m.deletedCount - 1 else m.deletedCount } e
  else addLocked m e

def applyEntryLocked (m : Counted) (e : WalEntry) : Counted :=
  let m' :=
    match e.type with
    | .insert => applyInsertLocked m e
    | .delete =>
      match m.index.markDelete e.blockId with
      | none => m
      | some index => { m with index, deletedCount := m.deletedCount + 1 }
  { m' with appliedLsn := m.appliedLsn + 1 }

/-- `RecoverInternal` with the snapshot `Load` found and the records that are not skipped. -/
def recoverInternal (maxElements : Nat) (loaded : Option (IndexImage × UInt64)) (entries : List WalEntry) : Counted :=
  let index := (loaded.map fun l => Hnsw.loadIndex maxElements l.1).getD (Hnsw.empty maxElements)
  entries.foldl applyEntryLocked
    { index, deletedCount := index.numDeleted, appliedLsn := (loaded.map (·.2)).getD 0 }

/-- `total - deleted_count_`, as `SearchLocked` and `GetStats` compute it. -/
def liveCount (m : Counted) : Nat :=
  let total := m.index.elements.length
  if m.deletedCount < total then total - m.deletedCount else 0

/-- How many neighbours `SearchLocked` asks `searchKnn` for, if it asks. -/
def searchLockedK (m : Counted) (topK : Int) : Option Nat :=
  if m.index.elements.length = 0 then none else
  let actualK := min (topK % 2 ^ 64).toNat m.liveCount
  if actualK = 0 then none else some actualK

structure Stats where
  vectorCount : Nat
  deletedCount : Nat

def getStats (m : Counted) : Stats := ⟨m.liveCount, m.deletedCount⟩

end Counted

/-! ## The counters are exact -/

namespace IndexImage
variable {i : IndexImage}

theorem find_some {label : UInt64} {x : Element} (h : i.find label = some x) : x ∈ i.elements ∧ x.label = label :=
  ⟨List.mem_of_find?_eq_some h, by simpa using List.find?_some h⟩

theorem countP_update {p : Element → Bool} {xs : List Element} (hnodup : (xs.map Element.label).Nodup) {x y : Element}
    (hx : x ∈ xs) (label : UInt64) (hlabel : x.label = label) :
    (xs.map fun z => if z.label = label then y else z).countP p + (if p x then 1 else 0) =
      xs.countP p + if p y then 1 else 0 := by
  induction xs with
  | nil => exact absurd hx List.not_mem_nil
  | cons z zs ih =>
    rw [List.map_cons, List.nodup_cons] at hnodup
    rw [List.map_cons, List.countP_cons, List.countP_cons]
    rcases List.mem_cons.mp hx with rfl | hmem
    · have hrest : (zs.map fun z => if z.label = label then y else z) = zs := by
        refine (List.map_congr_left fun z hz => ?_).trans (List.map_id zs)
        refine if_neg fun heq => hnodup.1 ?_
        rw [hlabel, ← heq]
        exact List.mem_map_of_mem hz
      rw [hrest, if_pos hlabel]
      omega
    · have hother : z.label ≠ label := by
        rintro rfl
        exact hnodup.1 (hlabel ▸ List.mem_map_of_mem hmem)
      have := ih hnodup.2 hmem
      rw [if_neg hother]
      omega

theorem marked_update {label : UInt64} {x : Element} (h : i.find label = some x) (vector : List UInt32)
    (deleted : Bool) :
    (i.update label vector deleted).marked + (if x.deleted then 1 else 0) = i.marked + if deleted then 1 else 0 := by
  obtain ⟨hmem, hlabel⟩ := find_some h
  exact countP_update (p := fun z => z.deleted) i.nodup_labels hmem label hlabel

theorem marked_append {x : Element} (h : i.find x.label = none) (hx : x.deleted = false) :
    (i.append x h).marked = i.marked := by
  show (i.elements ++ [x]).countP _ = i.elements.countP _
  rw [List.countP_append, List.countP_singleton]
  simp [hx]

theorem length_update (label : UInt64) (vector : List UInt32) (deleted : Bool) :
    (i.update label vector deleted).elements.length = i.elements.length := List.length_map _

end IndexImage

namespace Counted

/-- hnswlib's counter and the index's own are the number of marks. -/
structure Exact (m : Counted) : Prop where
  numDeleted : m.index.numDeleted = m.index.marked
  deletedCount : m.deletedCount = m.index.marked

variable {m : Counted}

theorem Exact.markDelete (h : m.Exact) {label : UInt64} {index : Hnsw} (hmark : m.index.markDelete label = some index)
    (lsn : UInt64) : Exact ⟨index, m.deletedCount + 1, lsn⟩ := by
  unfold Hnsw.markDelete at hmark
  split at hmark
  · cases hmark
  rename_i x hx
  split at hmark
  · cases hmark
  rename_i hd
  cases hmark
  have hcount := IndexImage.marked_update hx x.vector true
  rw [if_neg hd, if_pos rfl] at hcount
  obtain ⟨hnum, hdel⟩ := h
  refine ⟨?_, ?_⟩ <;> dsimp only <;> omega

theorem Exact.unmarkDelete (h : m.Exact) {label : UInt64} {index : Hnsw}
    (hunmark : m.index.unmarkDelete label = some index) :
    Exact { m with index, deletedCount := if 0 < m.deletedCount then m.deletedCount - 1 else m.deletedCount } := by
  unfold Hnsw.unmarkDelete at hunmark
  split at hunmark
  · cases hunmark
  rename_i x hx
  split at hunmark
  · rename_i hd
    cases hunmark
    have hcount := IndexImage.marked_update hx x.vector false
    rw [if_pos hd, if_neg (by simp)] at hcount
    obtain ⟨hnum, hdel⟩ := h
    have hpos : 0 < m.deletedCount := by omega
    refine ⟨?_, ?_⟩
    · dsimp only
      omega
    · dsimp only
      rw [if_pos hpos]
      omega
  · cases hunmark

theorem Exact.addLocked (h : m.Exact) (e : WalEntry) : (addLocked m e).Exact := by
  unfold Counted.addLocked
  split
  · exact h
  rename_i index hadd
  obtain ⟨hnum, hdel⟩ := h
  unfold Hnsw.addPoint at hadd
  split at hadd
  · rename_i x hx
    split at hadd
    · cases hadd
    rename_i hd
    cases hadd
    have hcount := IndexImage.marked_update hx e.vector false
    rw [if_neg hd, if_neg (by simp)] at hcount
    refine ⟨?_, ?_⟩ <;> dsimp only <;> omega
  · rename_i hfind
    split at hadd
    · cases hadd
    cases hadd
    have hcount := IndexImage.marked_append (x := ⟨e.blockId, e.vector, false⟩) hfind rfl
    refine ⟨?_, ?_⟩ <;> dsimp only <;> omega

theorem Exact.applyEntryLocked (h : m.Exact) (e : WalEntry) : (applyEntryLocked m e).Exact := by
  unfold Counted.applyEntryLocked
  cases e.type with
  | insert =>
    have hinsert : (applyInsertLocked m e).Exact := by
      unfold applyInsertLocked
      split
      · split
        · exact h
        · rename_i index hunmark
          exact (h.unmarkDelete hunmark).addLocked e
      · exact h.addLocked e
    exact ⟨hinsert.numDeleted, hinsert.deletedCount⟩
  | delete =>
    dsimp only
    split
    · exact ⟨h.numDeleted, h.deletedCount⟩
    · rename_i index hmark
      exact h.markDelete hmark _

theorem Exact.applyAll (h : m.Exact) (entries : List WalEntry) : (entries.foldl Counted.applyEntryLocked m).Exact := by
  induction entries generalizing m with
  | nil => exact h
  | cons e entries ih => exact ih (h.applyEntryLocked e)

theorem exact_recoverInternal (maxElements : Nat) (loaded : Option (IndexImage × UInt64)) (entries : List WalEntry) :
    (recoverInternal maxElements loaded entries).Exact := by
  refine Exact.applyAll ?_ entries
  cases loaded with
  | none => exact ⟨rfl, rfl⟩
  | some l => exact ⟨rfl, rfl⟩

end Counted

/-! ## The label sets -/

namespace IndexImage

def labelsOf (i : IndexImage) (p : Element → Bool) : Finset UInt64 := ((i.elements.filter p).map Element.label).toFinset

def markedLabels (i : IndexImage) : Finset UInt64 := i.labelsOf fun x => x.deleted

def liveLabels (i : IndexImage) : Finset UInt64 := i.labelsOf fun x => !x.deleted

theorem card_labelsOf (i : IndexImage) (p : Element → Bool) : (i.labelsOf p).card = i.elements.countP p := by
  have hnodup : ((i.elements.filter p).map Element.label).Nodup :=
    i.nodup_labels.sublist (List.filter_sublist.map _)
  rw [labelsOf, List.toFinset_card_of_nodup hnodup, List.length_map, List.countP_eq_length_filter]

theorem card_live_add_marked (i : IndexImage) : i.liveLabels.card + i.markedLabels.card = i.elements.length := by
  rw [liveLabels, markedLabels, card_labelsOf, card_labelsOf, List.length_eq_countP_add_countP fun x => x.deleted]
  simp only [Bool.not_eq_true, Bool.decide_eq_false]
  omega

end IndexImage

/-! ## The label table -/

namespace Hnsw
variable {h : Hnsw}

def toGraph (h : Hnsw) : Graph where
  points label := (h.find label).map fun x => ⟨x.vector, x.deleted⟩
  count := h.elements.length

theorem find_update (i : IndexImage) (label : UInt64) (vector : List UInt32) (deleted : Bool) (l : UInt64) :
    (i.update label vector deleted).find l =
      if l = label then (i.find label).map fun _ => ⟨label, vector, deleted⟩ else i.find l := by
  unfold IndexImage.find IndexImage.update
  dsimp only
  induction i.elements with
  | nil => simp
  | cons x xs ih =>
    rw [List.map_cons, List.find?_cons, ih, List.find?_cons, List.find?_cons]
    by_cases hl : l = label
    · subst hl
      by_cases hx : x.label = l
      · simp [hx]
      · have hne : (x.label == l) = false := by simpa using hx
        simp [hx, hne]
    · by_cases hx : x.label = label
      · have hne : (label == l) = false := by simp [Ne.symm hl]
        simp [hx, hne, hl]
      · simp [hx, hl]

theorem points_toGraph (h : Hnsw) (label : UInt64) :
    h.toGraph.points label = (h.find label).map fun x => ⟨x.vector, x.deleted⟩ := rfl

theorem toGraph_update {label : UInt64} {x : Element} (hx : h.find label = some x) (vector : List UInt32)
    (deleted : Bool) (n : Nat) :
    toGraph ⟨h.update label vector deleted, n⟩ = h.toGraph.setPoint label ⟨vector, deleted⟩ := by
  have hsome : (h.toGraph.points label).isSome = true := by rw [points_toGraph, hx]; rfl
  unfold Graph.setPoint
  rw [if_pos hsome]
  refine (Graph.mk.injEq ..).mpr ⟨funext fun l => ?_, IndexImage.length_update ..⟩
  show ((h.update label vector deleted).find l).map _ = _
  rw [find_update, hx]
  by_cases hl : l = label
  · subst hl
    simp
  · simp [hl, points_toGraph]

theorem toGraph_append {x : Element} (hx : h.find x.label = none) :
    toGraph { h with toIndexImage := h.append x hx } = h.toGraph.setPoint x.label ⟨x.vector, x.deleted⟩ := by
  have hnone : ¬ (h.toGraph.points x.label).isSome = true := by rw [points_toGraph, hx]; simp
  unfold Graph.setPoint
  rw [if_neg hnone]
  refine (Graph.mk.injEq ..).mpr ⟨funext fun l => ?_, List.length_append⟩
  show ((h.elements ++ [x]).find? fun z => z.label == l).map _ = _
  rw [List.find?_append]
  by_cases hl : l = x.label
  · subst hl
    have hx' : h.elements.find? (fun z => z.label == x.label) = none := hx
    simp [hx']
  · have hne : (x.label == l) = false := by simpa using Ne.symm hl
    simp [hl, hne, points_toGraph, IndexImage.find]

theorem toGraph_markDelete (h : Hnsw) (label : UInt64) :
    (h.markDelete label).map toGraph = h.toGraph.markDelete label := by
  unfold markDelete Graph.markDelete
  cases hx : h.find label with
  | none => simp [toGraph, hx]
  | some x =>
    have hpoint : h.toGraph.points label = some ⟨x.vector, x.deleted⟩ := by simp [toGraph, hx]
    rw [hpoint]
    dsimp only
    split
    · rfl
    · rw [Option.map_some, toGraph_update hx]

theorem toGraph_unmarkDelete (h : Hnsw) (label : UInt64) :
    (h.unmarkDelete label).map toGraph = h.toGraph.unmarkDelete label := by
  unfold unmarkDelete Graph.unmarkDelete
  cases hx : h.find label with
  | none => simp [toGraph, hx]
  | some x =>
    have hpoint : h.toGraph.points label = some ⟨x.vector, x.deleted⟩ := by simp [toGraph, hx]
    rw [hpoint]
    dsimp only
    split
    · rw [Option.map_some, toGraph_update hx]
    · rfl

theorem toGraph_addPoint (h : Hnsw) (vec : List UInt32) (label : UInt64) :
    (h.addPoint vec label).map toGraph = h.toGraph.addPoint h.maxElements vec label := by
  unfold addPoint Graph.addPoint
  split
  · rename_i x hx
    have hpoint : h.toGraph.points label = some ⟨x.vector, x.deleted⟩ := by simp [toGraph, hx]
    rw [hpoint]
    dsimp only
    split
    · rfl
    · rename_i hd
      rw [Option.map_some, toGraph_update hx, Bool.eq_false_iff.mpr hd]
  · rename_i hx
    have hpoint : h.toGraph.points label = none := by simp [toGraph, hx]
    have hcount : h.toGraph.count = h.elements.length := rfl
    rw [hpoint, hcount]
    split
    · rfl
    · rw [Option.map_some, toGraph_append]

/-- A label whose mark was cleared is live, so `addPoint` overwrites it and needs no room. -/
theorem addPoint_unmarkDelete {label : UInt64} {h' : Hnsw} (hun : h.unmarkDelete label = some h') (vec : List UInt32) :
    h'.maxElements = h.maxElements ∧ ∃ g, h'.toGraph.addPoint h.maxElements vec label = some g := by
  unfold unmarkDelete at hun
  split at hun
  · cases hun
  rename_i x hx
  split at hun <;> cases hun
  refine ⟨rfl, ?_⟩
  rw [toGraph_update hx]
  exact ⟨_, by simp [Graph.addPoint, Graph.setPoint]; rfl⟩

theorem isMarkedDeleted_toGraph (h : Hnsw) (label : UInt64) :
    h.toGraph.isMarkedDeleted label = h.isMarkedDeleted label := by
  unfold Graph.isMarkedDeleted isMarkedDeleted
  rw [points_toGraph]
  cases h.find label <;> rfl

end Hnsw

namespace Counted

/-- What the index and its LSN are to the rest of the model. -/
def toMemory (m : Counted) : PHnsw.Memory := ⟨m.index.toGraph, m.appliedLsn⟩

theorem toGraph_addLocked (m : Counted) (e : WalEntry) :
    (addLocked m e).index.toGraph =
      (m.index.toGraph.addPoint m.index.maxElements e.vector e.blockId).getD m.index.toGraph := by
  unfold addLocked
  rw [← Hnsw.toGraph_addPoint]
  cases m.index.addPoint e.vector e.blockId <;> rfl

/-- A record does to the elements what it does to the label table. -/
theorem toGraph_applyEntryLocked (m : Counted) (e : WalEntry) :
    (applyEntryLocked m e).index.toGraph = m.index.toGraph.applyEntry m.index.maxElements e := by
  unfold applyEntryLocked Graph.applyEntry
  cases e.type with
  | insert =>
    unfold applyInsertLocked Graph.applyInsert
    rw [Hnsw.isMarkedDeleted_toGraph, ← Hnsw.toGraph_unmarkDelete]
    by_cases hmarked : m.index.isMarkedDeleted e.blockId = true
    · rw [if_pos hmarked, if_pos hmarked]
      cases hun : m.index.unmarkDelete e.blockId with
      | none => rfl
      | some index =>
        dsimp only
        obtain ⟨hmax, g, hadd⟩ := Hnsw.addPoint_unmarkDelete hun e.vector
        rw [toGraph_addLocked, hmax]
        dsimp only [Option.map_some]
        show _ = (index.toGraph.addPoint m.index.maxElements e.vector e.blockId).getD _
        rw [hadd]
        rfl
    · rw [if_neg hmarked, if_neg hmarked]
      exact toGraph_addLocked m e
  | delete =>
    rw [← Hnsw.toGraph_markDelete]
    cases m.index.markDelete e.blockId <;> rfl

theorem toMemory_applyEntryLocked {cfg : Config} {m : Counted} (h : m.index.maxElements = cfg.maxElements)
    (e : WalEntry) : (applyEntryLocked m e).toMemory = PHnsw.applyEntryLocked cfg m.toMemory e := by
  unfold toMemory PHnsw.applyEntryLocked
  rw [toGraph_applyEntryLocked, h]
  rfl

theorem maxElements_addLocked (m : Counted) (e : WalEntry) :
    (addLocked m e).index.maxElements = m.index.maxElements := by
  unfold addLocked Hnsw.addPoint
  grind [IndexImage.append, IndexImage.update]

theorem maxElements_applyEntryLocked (m : Counted) (e : WalEntry) :
    (applyEntryLocked m e).index.maxElements = m.index.maxElements := by
  unfold applyEntryLocked applyInsertLocked Hnsw.markDelete Hnsw.unmarkDelete
  grind [maxElements_addLocked, IndexImage.update]

/-- The index applies any records as the rest of the model has it. -/
theorem toMemory_foldl (cfg : Config) (m : Counted) (es : List WalEntry) :
    (es.foldl applyEntryLocked m).toMemory =
      es.foldl (PHnsw.applyEntryLocked { cfg with maxElements := m.index.maxElements }) m.toMemory := by
  induction es generalizing m with
  | nil => rfl
  | cons e es ih =>
    rw [List.foldl_cons, List.foldl_cons, ← toMemory_applyEntryLocked rfl e, ← maxElements_applyEntryLocked m e]
    exact ih _

end Counted

/-! ## Records, snapshots and recoveries -/

namespace DeletedCount
open Lib

/-- The index and the snapshots `Save` has written. -/
structure State where
  memory : Counted
  saved : List (IndexImage × UInt64)

inductive Act
  | apply (e : WalEntry)
  | snapshot
  /-- `RecoverInternal` after `Load` took that snapshot, or found none; `entries` are the records it replays. -/
  | recover (maxElements : Nat) (loaded : Option Nat) (entries : List WalEntry)

/-- `RecoverInternal` with one of the snapshots; a place without one is no step. -/
def recoverFrom (s : State) (maxElements : Nat) (loaded : Option Nat) (entries : List WalEntry) : Option State :=
  match loaded with
  | none => some { s with memory := Counted.recoverInternal maxElements none entries }
  | some i => (s.saved[i]?).map fun l => { s with memory := Counted.recoverInternal maxElements (some l) entries }

def step (s : State) : Act → Option State
  | .apply e => some { s with memory := s.memory.applyEntryLocked e }
  | .snapshot => some { s with saved := (s.memory.index.toIndexImage, s.memory.appliedLsn) :: s.saved }
  | .recover maxElements loaded entries => recoverFrom s maxElements loaded entries

def opened (maxElements : Nat) (loaded : Option (IndexImage × UInt64)) (entries : List WalEntry)
    (saved : List (IndexImage × UInt64)) : State :=
  ⟨Counted.recoverInternal maxElements loaded entries, saved⟩

theorem exact_step {s s' : State} {a : Act} (h : s.memory.Exact) (hstep : step s a = some s') : s'.memory.Exact := by
  cases a with
  | apply e =>
    cases hstep
    exact h.applyEntryLocked e
  | snapshot =>
    cases hstep
    exact h
  | recover maxElements loaded entries =>
    unfold step recoverFrom at hstep
    cases loaded with
    | none =>
      cases hstep
      exact Counted.exact_recoverInternal maxElements none entries
    | some i =>
      obtain ⟨l, -, rfl⟩ := Option.map_eq_some_iff.mp hstep
      exact Counted.exact_recoverInternal maxElements (some l) entries

/-- The counter is the number of labels marked deleted, a search asks for no more neighbours than there are live labels,
and the statistics report both numbers. -/
structure CounterExact (m : Counted) : Prop where
  deleted : m.deletedCount = m.index.markedLabels.card
  search : ∀ topK k, m.searchLockedK topK = some k → k ≤ m.index.liveLabels.card
  stats : m.getStats = ⟨m.index.liveLabels.card, m.index.markedLabels.card⟩

theorem counterExact_of_exact {m : Counted} (h : m.Exact) : CounterExact m := by
  have hdeleted : m.deletedCount = m.index.markedLabels.card := by
    rw [h.deletedCount, IndexImage.markedLabels, IndexImage.card_labelsOf, IndexImage.marked]
  have hsum := m.index.card_live_add_marked
  have hlive : m.liveCount = m.index.liveLabels.card := by
    unfold Counted.liveCount
    dsimp only
    split <;> omega
  refine ⟨hdeleted, fun topK k hk => ?_, by rw [Counted.getStats, hlive, hdeleted]⟩
  unfold Counted.searchLockedK at hk
  split at hk
  · cases hk
  dsimp only at hk
  split at hk
  · cases hk
  · cases hk
    rw [← hlive]
    exact min_le_right _ _

/-- Whatever snapshot the index was opened from, and whatever records are applied, rejected, snapshot and replayed, the
deleted counter is exact. -/
theorem deleted_count_exact {maxElements : Nat} {loaded : Option (IndexImage × UInt64)} {entries : List WalEntry}
    {saved : List (IndexImage × UInt64)} {acts : List Act} {s : State}
    (h : run step (opened maxElements loaded entries saved) acts = some s) : CounterExact s.memory :=
  counterExact_of_exact (run_inv (I := fun t => t.memory.Exact) (Q := fun _ _ => True)
    (fun hi _ hstep => exact_step hi hstep) (Counted.exact_recoverInternal maxElements loaded entries)
    (along_true _ _) h)

/-- Room for two: a third label is rejected, a deleted one comes back, and a deleted one outlives a snapshot. -/
def markedAcrossReload : List Act :=
  [.apply { blockId := 1, vector := [5] }, .apply { blockId := 2, vector := [6] },
   .apply { blockId := 3, vector := [7] }, .apply { type := .delete, blockId := 1 },
   .apply { type := .delete, blockId := 1 }, .apply { type := .delete, blockId := 9 },
   .apply { blockId := 1, vector := [8] }, .apply { type := .delete, blockId := 2 }, .snapshot,
   .recover 2 (some 0) [{ type := .delete, blockId := 1 }, { blockId := 2, vector := [9] }]]

theorem deleted_count_exact_across_reload :
    ∃ s, run step (opened 2 none [] []) markedAcrossReload = some s ∧ s.memory.getStats = ⟨1, 1⟩ ∧
      s.memory.index.markedLabels.card = 1 := by
  have hsome : (run step (opened 2 none [] []) markedAcrossReload).any (fun s => s.memory.deletedCount == 1 &&
      s.memory.liveCount == 1) = true := by decide +kernel
  obtain ⟨s, hs, hcheck⟩ := Option.any_eq_true _ _ |>.mp hsome
  obtain ⟨hdel, hlive⟩ := Bool.and_eq_true_iff.mp hcheck
  have hexact := deleted_count_exact hs
  refine ⟨s, hs, ?_, ?_⟩
  · rw [Counted.getStats, beq_iff_eq.mp hdel, beq_iff_eq.mp hlive]
  · rw [← hexact.deleted, beq_iff_eq.mp hdel]

end DeletedCount

end Cortrix.Store.Phnsw
