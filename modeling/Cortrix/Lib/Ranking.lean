import Mathlib.Data.List.Perm.Basic

/-!
# Ranking by score, ties by key

The order of a ranked list: the higher score first, and of two equal scores the smaller key. Scores are compared, not
identified: two may be equal without being the same.

* `ranksBefore score key` : the comparator; `Ranks score key x y` : `x` need not stand behind `y`;
* `Sorter before` : a sort that is promised to respect a comparator and nothing else, stability included;
* `Sorter.pairwise` : what a sort by rank returns; `Sorter.eq_of_perm` : when no two elements share a key, any order of
  the elements is ranked in the same way.
-/

namespace Lib

/-- A sort by `before`: some order of the elements in which none stands before one that `before` puts first. -/
structure Sorter {α : Type} (before : α → α → Bool) where
  sort : List α → List α
  perm : ∀ l, (sort l).Perm l
  ordered : ∀ l, (sort l).Pairwise fun x y => before y x = false

variable {α S κ : Type} [LE S] [LT S] [DecidableLE S] [DecidableLT S] [LE κ] [LT κ] [DecidableLT κ]

def ranksBefore (score : α → S) (key : α → κ) (x y : α) : Bool :=
  if score x ≤ score y ∧ score y ≤ score x then decide (key x < key y) else decide (score y < score x)

/-- The score of `x` is higher, or it is equal and the key is not larger. -/
def Ranks (score : α → S) (key : α → κ) (x y : α) : Prop :=
  score y < score x ∨ (score x ≤ score y ∧ score y ≤ score x) ∧ key x ≤ key y

theorem Sorter.ne_nil {before : α → α → Bool} (s : Sorter before) {l : List α} (h : l ≠ []) : s.sort l ≠ [] :=
  fun hnil => h (List.nil_perm.mp (hnil ▸ s.perm l))

section Laws
variable {score : α → S} {key : α → κ} [Std.IsLinearPreorder S] [Std.LawfulOrderLT S] [Std.IsLinearOrder κ]
  {x y z : α}

omit [DecidableLE S] [DecidableLT S] [LT κ] [DecidableLT κ] in
theorem Ranks.trans (h : Ranks score key x y) (h' : Ranks score key y z) : Ranks score key x z := by
  rcases h with hlt | ⟨⟨hxy, hyx⟩, hkey⟩
  · rcases h' with hlt' | ⟨⟨-, hzy⟩, -⟩
    · exact Or.inl (Std.lt_trans hlt' hlt)
    · exact Or.inl (Std.lt_of_le_of_lt hzy hlt)
  · rcases h' with hlt' | ⟨⟨hyz, hzy⟩, hkey'⟩
    · exact Or.inl (Std.lt_of_lt_of_le hlt' hyx)
    · exact Or.inr ⟨⟨Std.le_trans hxy hyz, Std.le_trans hzy hyx⟩, Std.le_trans hkey hkey'⟩

omit [DecidableLE S] [DecidableLT S] [Std.IsLinearPreorder S] [LT κ] [DecidableLT κ] in
theorem Ranks.key_eq (h : Ranks score key x y) (h' : Ranks score key y x) : key x = key y := by
  rcases h with hlt | ⟨⟨-, hyx⟩, hkey⟩
  · rcases h' with hlt' | ⟨⟨-, hxy⟩, -⟩
    · exact absurd (Std.le_of_lt hlt') (Std.not_le_of_gt hlt)
    · exact absurd hxy (Std.not_le_of_gt hlt)
  · rcases h' with hlt' | ⟨-, hkey'⟩
    · exact absurd hyx (Std.not_le_of_gt hlt')
    · exact Std.le_antisymm hkey hkey'

omit [DecidableLE S] [DecidableLT S] [LT κ] [DecidableLT κ] in
theorem Ranks.total (x y : α) : Ranks score key x y ∨ Ranks score key y x := by
  by_cases hxy : score x ≤ score y
  · by_cases hyx : score y ≤ score x
    · rcases Std.le_total (a := key x) (b := key y) with hle | hle
      · exact Or.inl (Or.inr ⟨⟨hxy, hyx⟩, hle⟩)
      · exact Or.inr (Or.inr ⟨⟨hyx, hxy⟩, hle⟩)
    · exact Or.inr (Or.inl (Std.not_le.mp hyx))
  · exact Or.inl (Or.inl (Std.not_le.mp hxy))

variable [Std.LawfulOrderLT κ]

theorem ranksBefore_eq_false : ranksBefore score key y x = false ↔ Ranks score key x y := by
  unfold ranksBefore Ranks
  by_cases heq : score y ≤ score x ∧ score x ≤ score y
  · rw [if_pos heq, decide_eq_false_iff_not, Std.not_lt]
    have hnot : ¬ score y < score x := fun hlt => Std.not_le_of_gt hlt heq.2
    simp [hnot, heq.1, heq.2]
  · rw [if_neg heq, decide_eq_false_iff_not, Std.not_lt]
    constructor
    · intro hle
      -- the scores are comparable and not equal
      exact Or.inl (Std.not_le.mp fun hge => heq ⟨hle, hge⟩)
    · rintro (hlt | ⟨⟨-, hyx⟩, -⟩)
      · exact Std.le_of_lt hlt
      · exact hyx

namespace Sorter
variable {before : α → α → Bool}

theorem pairwise (s : Sorter before) (hb : before = ranksBefore score key) (l : List α) :
    (s.sort l).Pairwise (Ranks score key) := by
  subst hb
  exact (s.ordered l).imp ranksBefore_eq_false.mp

theorem eq_of_perm (s : Sorter before) (hb : before = ranksBefore score key) {l l' : List α}
    (hinj : ∀ x ∈ l, ∀ y ∈ l, key x = key y → x = y) (h : l.Perm l') : s.sort l = s.sort l' := by
  have hunique : ∀ x y, x ∈ s.sort l → y ∈ s.sort l' → Ranks score key x y → Ranks score key y x → x = y := by
    intro x y hx hy hxy hyx
    refine hinj x ((s.perm l).mem_iff.mp hx) y ?_ (hxy.key_eq hyx)
    exact h.mem_iff.mpr ((s.perm l').mem_iff.mp hy)
  exact List.Perm.eq_of_pairwise hunique (s.pairwise hb l) (s.pairwise hb l')
    ((s.perm l).trans (h.trans (s.perm l').symm))

/-- Merge sort is one of them. -/
def merge (hb : before = ranksBefore score key) : Sorter before where
  sort l := l.mergeSort fun x y => !before y x
  perm l := List.mergeSort_perm l _
  ordered l := by
    subst hb
    have hsort : (l.mergeSort fun x y => !ranksBefore score key y x).Pairwise
        fun x y => (!ranksBefore score key y x) = true := by
      refine List.pairwise_mergeSort ?_ ?_ l
      · intro x y z hxy hyz
        rw [Bool.not_eq_true', ranksBefore_eq_false] at hxy hyz ⊢
        exact hxy.trans hyz
      · intro x y
        rw [Bool.or_eq_true, Bool.not_eq_true', Bool.not_eq_true', ranksBefore_eq_false, ranksBefore_eq_false]
        exact Ranks.total x y
    exact hsort.imp fun h => by simpa using h

end Sorter
end Laws
end Lib
