import Cortrix.Chunker.ParentPacking

/-!
# Documents with too many parents

Whether a document is chunked flat is decided from the number of its tokens, whether it has too many parents from the
greedy packing, which flushes a parent before it is full.

* `chunkDocument_built` : a document that is not chunked flat is chunked exactly when its greedy runs are few enough;
* `natPacker_feasible` : without wrapping the greedy runs are as few as runs of one unit or of `parent_size` tokens can be;
* `chunks_iff` : when a document is chunked; `three_overflow` : one that the threshold lets through is not.
-/

namespace Cortrix.Chunker
open Lib

variable {M : Type}

/-- The units in the order of the document, cut into runs of one unit or of at most `parentSize` tokens. -/
structure FitsInto (parentSize : Int32) (units : List TextUnit) (runs : List (List TextUnit)) : Prop where
  flatten : runs.flatten = units
  nonempty : ∀ run ∈ runs, run ≠ []
  sizes : ∀ run ∈ runs, run.length = 1 ∨ tokens run ≤ parentSize.toUInt32.toNat

theorem natPacker_feasible {size : Nat} {runs : List (List TextUnit)} : (natPacker size).Feasible runs ↔
    (∀ run ∈ runs, run ≠ []) ∧ ∀ run ∈ runs, run.length = 1 ∨ tokens run ≤ size := by
  induction runs with
  | nil => exact ⟨fun _ => ⟨by simp, by simp⟩, fun _ => trivial⟩
  | cons run runs ih =>
    cases run with
    | nil => exact ⟨fun h => h.elim, fun h => absurd rfl (h.1 [] (by simp))⟩
    | cons u ys =>
      have hstep : (natPacker size).Feasible ((u :: ys) :: runs) ↔
          (natPacker size).Filled u.tokenCount.toNat ys ∧ (natPacker size).Feasible runs := Iff.rfl
      have hrun : ys = [] ∨ u.tokenCount.toNat + tokens ys ≤ size ↔
          (u :: ys).length = 1 ∨ tokens (u :: ys) ≤ size := by
        rw [tokens_cons, List.length_cons, Nat.add_eq_right, List.length_eq_zero_iff]
      rw [hstep, natPacker_filled, hrun, ih, List.forall_mem_cons, List.forall_mem_cons]
      constructor
      · rintro ⟨hu, hne, hsizes⟩
        exact ⟨⟨List.cons_ne_nil u ys, hne⟩, hu, hsizes⟩
      · rintro ⟨⟨-, hne⟩, hu, hsizes⟩
        exact ⟨hu, hne, hsizes⟩

theorem natPacker_foldl (size n : Nat) (ys : List TextUnit) : ys.foldl (natPacker size).add n = n + tokens ys := by
  induction ys generalizing n with
  | nil => rfl
  | cons y ys ih =>
    rw [List.foldl_cons, ih, tokens_cons]
    exact Nat.add_assoc _ _ _

theorem natPacker_lighter (size : Nat) : (natPacker size).Lighter (· ≤ ·) where
  fits _ _ y hst h := Nat.le_trans (Nat.add_le_add_right hst y.tokenCount.toNat) h
  add _ _ y hst := Nat.add_le_add_right hst y.tokenCount.toNat
  first s y := Nat.le_add_left y.tokenCount.toNat s

theorem packer_greedy (parentSize : Int32) {runs : List (List TextUnit)} (h : tokens runs.flatten < 2 ^ 32) :
    (packer parentSize).Greedy runs ↔ (natPacker parentSize.toUInt32.toNat).Greedy runs := by
  induction runs with
  | nil => exact Iff.rfl
  | cons run runs ih =>
    cases run with
    | nil => exact Iff.rfl
    | cons u ys =>
      rw [List.flatten_cons, List.cons_append, tokens_cons, tokens_append] at h
      have hbound : u.tokenCount.toNat + tokens ys < 2 ^ 32 := by omega
      obtain ⟨hfilled, hload⟩ := packer_filled parentSize hbound
      refine and_congr hfilled (and_congr ?_ (ih (by omega)))
      refine forall_congr' fun z => forall_congr' fun zs => imp_congr_right fun hz => not_congr ?_
      have hz : z.tokenCount.toNat ≤ tokens runs.flatten := by
        cases runs with
        | nil => simp at hz
        | cons run runs =>
          obtain rfl : run = z :: zs := by simpa using hz
          rw [List.flatten_cons, List.cons_append, tokens_cons]
          exact Nat.le_add_right _ _
      have hload' : ((packer parentSize).load u ys).toNat = (natPacker parentSize.toUInt32.toNat).load u ys := by
        rw [Packer.load, Packer.load, natPacker_foldl]
        exact hload
      rw [← hload']
      refine (packer_fits parentSize ?_).1
      rw [hload', Packer.load, natPacker_foldl, show (natPacker _).first u = u.tokenCount.toNat from rfl]
      omega

/-! ## When a document is chunked -/

section
variable (config : ChunkerConfig) (counter : Bytes → UInt32) (ids : Nat → String) (nowMs : Int) (input : ChunkerInput M)

def Chunks : Prop := ∃ output, chunkDocument config counter ids nowMs input = .ok output

theorem chunkDocument_built (hunits : (collectUnits config counter input).1 ≠ [])
    (hflat : ¬ takesFlat config (collectUnits config counter input).1) :
    ∃ runs, (packer config.parentSize).Greedy runs ∧ runs.flatten = (collectUnits config counter input).1 ∧
      (Chunks config counter ids nowMs input ↔ runs.length ≤ (toSize config.maxParentsPerDoc).toNat) := by
  obtain ⟨⟨hi, hemitted⟩, -⟩ := collectUnits_emitted config counter input
  obtain ⟨runs, blocks, hgreedy, hflatten, hbuilt⟩ := buildLoop_greedy config counter ids nowMs input hemitted.texts
  have hlen : (buildLoop config counter ids nowMs input {} (collectUnits config counter input).1).parents.length =
      runs.length := by
    have hmap := congrArg List.length hbuilt.spans
    rwa [List.length_map, List.length_map] at hmap
  refine ⟨runs, hgreedy, hflatten, ?_⟩
  have hempty : ¬ (collectUnits config counter input).1.isEmpty = true := by simpa using hunits
  unfold Chunks chunkDocument
  rw [if_neg hempty, if_neg hflat]
  simp only [buildParentChild, List.nil_append, hlen]
  by_cases hmany : (toSize config.maxParentsPerDoc).toNat < runs.length
  · rw [if_pos hmany]
    exact ⟨fun ⟨_, h⟩ => absurd h (by simp), fun h => absurd h (Nat.not_le.mpr hmany)⟩
  · rw [if_neg hmany]
    exact ⟨fun _ => Nat.not_lt.mp hmany, fun _ => ⟨_, rfl⟩⟩

theorem chunks_of_flat (hunits : (collectUnits config counter input).1 ≠ [])
    (hflat : takesFlat config (collectUnits config counter input).1) : Chunks config counter ids nowMs input := by
  have hempty : ¬ (collectUnits config counter input).1.isEmpty = true := by simpa using hunits
  unfold Chunks chunkDocument
  rw [if_neg hempty, if_pos hflat]
  exact ⟨_, rfl⟩

/-- A document with units is chunked exactly when it is chunked flat or its units, packed greedily, fill few enough
parents; without wrapping that is when they can be cut into few enough runs that fit. -/
theorem chunks_iff (hunits : (collectUnits config counter input).1 ≠ []) :
    (Chunks config counter ids nowMs input ↔ takesFlat config (collectUnits config counter input).1 ∨
      ∃ runs, (packer config.parentSize).Greedy runs ∧ runs.flatten = (collectUnits config counter input).1 ∧
        runs.length ≤ (toSize config.maxParentsPerDoc).toNat) ∧
    (tokens (collectUnits config counter input).1 < 2 ^ 32 →
      (Chunks config counter ids nowMs input ↔ takesFlat config (collectUnits config counter input).1 ∨
        ∃ runs, FitsInto config.parentSize (collectUnits config counter input).1 runs ∧
          runs.length ≤ (toSize config.maxParentsPerDoc).toNat)) := by
  by_cases hflat : takesFlat config (collectUnits config counter input).1
  · have hchunks := chunks_of_flat config counter ids nowMs input hunits hflat
    exact ⟨⟨fun _ => Or.inl hflat, fun _ => hchunks⟩, fun _ => ⟨fun _ => Or.inl hflat, fun _ => hchunks⟩⟩
  · obtain ⟨runs, hgreedy, hflatten, hchunks⟩ := chunkDocument_built config counter ids nowMs input hunits hflat
    rw [hchunks]
    refine ⟨⟨fun h => Or.inr ⟨runs, hgreedy, hflatten, h⟩, fun h => ?_⟩, fun htokens => ⟨fun h => Or.inr ?_, fun h => ?_⟩⟩
    · obtain ⟨runs', hgreedy', hflatten', hlen⟩ := h.resolve_left hflat
      rwa [Packer.Greedy.unique _ hgreedy hgreedy' (hflatten.trans hflatten'.symm)]
    · rw [← hflatten] at htokens
      have hnat := Packer.Greedy.feasible _ ((packer_greedy config.parentSize htokens).mp hgreedy)
      obtain ⟨hne, hsizes⟩ := natPacker_feasible.mp hnat
      exact ⟨runs, ⟨hflatten, hne, hsizes⟩, h⟩
    · obtain ⟨runs', hfits, hlen⟩ := h.resolve_left hflat
      rw [← hflatten] at htokens
      have hnat := (packer_greedy config.parentSize htokens).mp hgreedy
      have hfeasible := natPacker_feasible.mpr ⟨hfits.nonempty, hfits.sizes⟩
      have hle := Packer.Greedy.length_le _ (natPacker_lighter _) hnat hfeasible (hflatten.trans hfits.flatten.symm)
      exact hle.trans hlen

end

/-! ## A document within the threshold -/

def sixes (n : Nat) : ChunkerInput Unit :=
  { docId := "d", namespaceId := "n", metadata := (),
    pages := [{ pageNum := 1, paragraphs := List.replicate n "a a a a a a".toUTF8.toList }] }

def twoParents : ChunkerConfig := { parentSize := 10, maxParentsPerDoc := 2, fallbackToFlatThreshold := 2 }

theorem chunks_iff_sixes :
    let units := (collectUnits twoParents estimateTokens (sixes 2)).1
    (Chunks twoParents estimateTokens toString 0 (sixes 2) ↔ takesFlat twoParents units ∨
      ∃ runs, (packer twoParents.parentSize).Greedy runs ∧ runs.flatten = units ∧
        runs.length ≤ (toSize twoParents.maxParentsPerDoc).toNat) ∧
    (tokens units < 2 ^ 32 → (Chunks twoParents estimateTokens toString 0 (sixes 2) ↔ takesFlat twoParents units ∨
      ∃ runs, FitsInto twoParents.parentSize units runs ∧ runs.length ≤ (toSize twoParents.maxParentsPerDoc).toNat)) :=
  chunks_iff twoParents estimateTokens toString 0 (sixes 2) (by decide +kernel)

/-- Eighteen tokens are two parents of ten by the estimate, three paragraphs of six are three. -/
theorem three_overflow : (collectUnits twoParents estimateTokens (sixes 3)).1 ≠ [] ∧ 1 ≤ twoParents.parentSize ∧
    twoParents.fallbackToFlatThreshold ≤ twoParents.maxParentsPerDoc ∧
    chunkDocument twoParents estimateTokens toString 0 (sixes 3) = .error (overflow "d" 3 2) := by
  refine ⟨by decide +kernel, by decide, by decide, by decide +kernel⟩

end Cortrix.Chunker
