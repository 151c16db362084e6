import Mathlib.Data.Finset.Card
import Cortrix.Store.Phnsw.WalEntry

/-!
# The graph, as the index uses it

Of hnswlib's graph the index relies on the label table: which labels have an element, its vector and its
delete mark, and how many elements there are. Links and levels decide how a search walks, not what is stored.

* `none` is where hnswlib throws, with `allow_replace_deleted`;
* `VectorMap` : the map the records describe; as long as the index has room the graph's live map is that
  map (`live_applyAll`).
-/

namespace Cortrix.Store.Phnsw

/-- What the index is for: the vector of each label. -/
abbrev VectorMap := UInt64 → Option (List UInt32)

namespace VectorMap

def empty : VectorMap := fun _ => none

def apply (m : VectorMap) (e : WalEntry) : VectorMap :=
  Function.update m e.blockId (if e.type = .insert then some e.vector else none)

end VectorMap

structure Point where
  vector : List UInt32
  deleted : Bool

structure Graph where
  points : UInt64 → Option Point
  count : Nat

namespace Graph

def empty : Graph := ⟨fun _ => none, 0⟩

/-- `label_lookup_[label]` now has this vector and mark; a new label takes a new element. -/
def setPoint (g : Graph) (label : UInt64) (p : Point) : Graph :=
  { points := Function.update g.points label (some p),
    count := if (g.points label).isSome then g.count else g.count + 1 }

def isMarkedDeleted (g : Graph) (label : UInt64) : Bool := (g.points label).any (·.deleted)

def markDelete (g : Graph) (label : UInt64) : Option Graph :=
  match g.points label with
  | none => none
  | some p => if p.deleted then none else some (g.setPoint label { p with deleted := true })

def unmarkDelete (g : Graph) (label : UInt64) : Option Graph :=
  match g.points label with
  | none => none
  | some p => if p.deleted then some (g.setPoint label { p with deleted := false }) else none

/-- A live label is overwritten, a marked one throws, a new one needs room. -/
def addPoint (maxElements : Nat) (g : Graph) (vec : List UInt32) (label : UInt64) : Option Graph :=
  match g.points label with
  | some p => if p.deleted then none else some (g.setPoint label { p with vector := vec })
  | none => if maxElements ≤ g.count then none else some (g.setPoint label ⟨vec, false⟩)

/-- `ApplyInsertLocked`: a marked label is resurrected in place before it is overwritten. -/
def applyInsert (maxElements : Nat) (g : Graph) (e : WalEntry) : Option Graph := do
  let g ← if g.isMarkedDeleted e.blockId then g.unmarkDelete e.blockId else some g
  g.addPoint maxElements e.vector e.blockId

/-- What `ApplyEntryLocked` does to the graph; what hnswlib throws is swallowed. -/
def applyEntry (maxElements : Nat) (g : Graph) (e : WalEntry) : Graph :=
  match e.type with
  | .insert => (applyInsert maxElements g e).getD g
  | .delete => (g.markDelete e.blockId).getD g

def applyAll (maxElements : Nat) (g : Graph) (es : List WalEntry) : Graph := es.foldl (applyEntry maxElements) g

def live (g : Graph) : VectorMap := fun label =>
  (g.points label).bind fun p => if p.deleted then none else some p.vector

end Graph

/-! ## The live map -/

namespace Graph
variable {g : Graph}

theorem live_setPoint (g : Graph) (label : UInt64) (p : Point) :
    (g.setPoint label p).live =
      Function.update g.live label (if p.deleted then none else some p.vector) := by
  funext l
  by_cases hl : l = label
  · subst hl
    simp [live, setPoint]
  · simp [live, setPoint, hl]

theorem applyInsert_eq (maxElements : Nat) (e : WalEntry)
    (h : (g.points e.blockId).isSome ∨ g.count < maxElements) :
    ∃ g', applyInsert maxElements g e = some g' ∧
      g'.points = Function.update g.points e.blockId (some ⟨e.vector, false⟩) ∧
      g'.count = if (g.points e.blockId).isSome then g.count else g.count + 1 := by
  unfold applyInsert isMarkedDeleted
  cases hp : g.points e.blockId with
  | none =>
    have hroom : ¬ maxElements ≤ g.count := by
      rw [hp] at h
      simpa using h
    exact ⟨_, by simp [addPoint, hp, hroom]; rfl, rfl, by simp [setPoint, hp]⟩
  | some p =>
    cases hd : p.deleted with
    | true => exact ⟨_, by simp [unmarkDelete, addPoint, setPoint, hp, hd]; rfl, by simp, by simp⟩
    | false => exact ⟨_, by simp [addPoint, hp, hd]; rfl, by simp [setPoint], by simp [setPoint, hp]⟩

/-- With room for its label, a record does to the live map what it says. -/
theorem live_applyEntry (maxElements : Nat) (e : WalEntry)
    (h : e.type = .insert → (g.points e.blockId).isSome ∨ g.count < maxElements) :
    (applyEntry maxElements g e).live = VectorMap.apply g.live e := by
  unfold applyEntry VectorMap.apply
  split
  · rename_i htype
    obtain ⟨g', happ, hpoints, -⟩ := applyInsert_eq maxElements e (h htype)
    rw [happ, Option.getD_some, if_pos htype]
    funext l
    by_cases hl : l = e.blockId
    · subst hl
      simp [live, hpoints]
    · simp [live, hpoints, hl]
  · rename_i htype
    rw [if_neg (by rw [htype]; decide)]
    unfold markDelete
    split
    · rename_i hp
      rw [Option.getD_none, eq_comm, Function.update_eq_self_iff, live, hp]
      rfl
    · rename_i p hp
      split
      · rename_i hd
        rw [Option.getD_none, eq_comm, Function.update_eq_self_iff, live, hp, Option.bind_some, if_pos hd]
      · rw [Option.getD_some, live_setPoint]
        simp

def insertLabels (es : List WalEntry) : Finset UInt64 :=
  ((es.filter (·.type = .insert)).map (·.blockId)).toFinset

/-- `known` are the labels that have an element. -/
def Counts (g : Graph) (known : Finset UInt64) : Prop :=
  (∀ l, (g.points l).isSome ↔ l ∈ known) ∧ g.count = known.card

theorem Counts.applyEntry {known : Finset UInt64} (hg : g.Counts known) (maxElements : Nat) (e : WalEntry)
    (h : e.type = .insert → (g.points e.blockId).isSome ∨ g.count < maxElements) :
    (applyEntry maxElements g e).Counts (if e.type = .insert then insert e.blockId known else known) := by
  obtain ⟨hknown, hcount⟩ := hg
  unfold Graph.applyEntry
  split
  · rename_i htype
    obtain ⟨g', happ, hpoints, hcount'⟩ := applyInsert_eq maxElements e (h htype)
    rw [happ, Option.getD_some, if_pos htype]
    refine ⟨fun l => ?_, ?_⟩
    · by_cases hl : l = e.blockId
      · simp [hpoints, hl]
      · simp [hpoints, hl, hknown]
    · rw [hcount', hcount]
      split
      · rename_i hsome
        rw [Finset.insert_eq_of_mem ((hknown _).mp hsome)]
      · rename_i hnone
        rw [Finset.card_insert_of_notMem fun hmem => hnone ((hknown _).mpr hmem)]
  · rename_i htype
    rw [if_neg (by rw [htype]; decide)]
    unfold markDelete
    split
    · exact ⟨hknown, hcount⟩
    · rename_i p hp
      split
      · exact ⟨hknown, hcount⟩
      · refine ⟨fun l => ?_, by simp [setPoint, hp, hcount]⟩
        rw [Option.getD_some, ← hknown]
        by_cases hl : l = e.blockId
        · simp [setPoint, hl, hp]
        · simp [setPoint, hl]

/-- As long as the index has room for every label inserted, its live map is the one the records describe. -/
theorem live_applyAll (maxElements : Nat) (es : List WalEntry) (h : (insertLabels es).card ≤ maxElements) :
    (applyAll maxElements empty es).live = es.foldl VectorMap.apply VectorMap.empty := by
  -- the elements the graph has are among the labels of the whole list
  have key : ∀ (es : List WalEntry) (g : Graph) (known all : Finset UInt64), g.Counts known → known ⊆ all →
      insertLabels es ⊆ all → all.card ≤ maxElements →
      (applyAll maxElements g es).live = es.foldl VectorMap.apply g.live := by
    intro es
    induction es with
    | nil => intro g known all _ _ _ _; rfl
    | cons e es ih =>
      intro g known all hg hknown hall hcard
      have hroom : e.type = .insert → (g.points e.blockId).isSome ∨ g.count < maxElements := by
        intro htype
        rw [hg.1, hg.2, or_iff_not_imp_left]
        intro hnew
        have hmem : e.blockId ∈ all := hall (by simp [insertLabels, htype])
        exact lt_of_lt_of_le (Finset.card_lt_card ⟨hknown, fun hsub => hnew (hsub hmem)⟩) hcard
      have hrest : insertLabels es ⊆ all := by
        refine fun l hl => hall ?_
        simp only [insertLabels, List.mem_toFinset, List.mem_map, List.mem_filter, List.mem_cons] at hl ⊢
        obtain ⟨a, ⟨ha, htype⟩, hl⟩ := hl
        exact ⟨a, ⟨Or.inr ha, htype⟩, hl⟩
      have hknown' : (if e.type = .insert then insert e.blockId known else known) ⊆ all := by
        split
        · rename_i htype
          exact Finset.insert_subset (hall (by simp [insertLabels, htype])) hknown
        · exact hknown
      rw [List.foldl_cons, ← live_applyEntry maxElements e hroom]
      exact ih _ _ all (hg.applyEntry maxElements e hroom) hknown' hrest hcard
  exact key es empty ∅ (insertLabels es) ⟨fun l => by simp [empty], rfl⟩ (by simp) (by simp) h

theorem live_applyAll_again :
    let es : List WalEntry := [{ blockId := 7 }, { type := .delete, blockId := 7 }, { blockId := 7, vector := [1] }]
    (applyAll 1 empty es).live = es.foldl VectorMap.apply VectorMap.empty :=
  live_applyAll 1 _ (by decide)

end Graph

end Cortrix.Store.Phnsw
