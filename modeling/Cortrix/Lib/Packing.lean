import Mathlib.Data.List.Basic

/-!
# Packing a list into runs

Items are packed in order; a run takes the next item as long as it fits the run's load.

* `Packer` : the load of a run, and when an item fits; `Filled` : every item of a run fitted when it was taken;
* `Feasible` : a list cut into filled runs; `Greedy` : no run would have taken the first item of the next one;
* `Greedy.unique` : a list is packed greedily in one way.
-/

namespace Lib
variable {σ α : Type}

structure Packer (σ α : Type) where
  first : α → σ
  add : σ → α → σ
  fits : σ → α → Prop

namespace Packer
variable (P : Packer σ α)

def load (x : α) (ys : List α) : σ := ys.foldl P.add (P.first x)

/-- Each of the items fits the load in front of it. -/
def Filled : σ → List α → Prop
  | _, [] => True
  | s, y :: ys => P.fits s y ∧ Filled (P.add s y) ys

def Feasible : List (List α) → Prop
  | [] => True
  | [] :: _ => False
  | (x :: ys) :: runs => P.Filled (P.first x) ys ∧ Feasible runs

def Greedy : List (List α) → Prop
  | [] => True
  | [] :: _ => False
  | (x :: ys) :: runs => P.Filled (P.first x) ys ∧
      (∀ z zs, runs.head? = some (z :: zs) → ¬ P.fits (P.load x ys) z) ∧ Greedy runs

theorem Filled.append {s : σ} {ys zs : List α} :
    P.Filled s (ys ++ zs) ↔ P.Filled s ys ∧ P.Filled (ys.foldl P.add s) zs := by
  induction ys generalizing s with
  | nil => simp [Filled]
  | cons y ys ih => simp only [List.cons_append, Filled, List.foldl_cons, ih, and_assoc]

theorem Greedy.feasible {runs : List (List α)} (h : P.Greedy runs) : P.Feasible runs := by
  induction runs with
  | nil => trivial
  | cons run runs ih =>
    cases run with
    | nil => exact h
    | cons x ys => exact ⟨h.1, ih h.2.2⟩

theorem Feasible.ne_nil {runs : List (List α)} (h : P.Feasible runs) : ∀ run ∈ runs, run ≠ [] := by
  induction runs with
  | nil => simp
  | cons run runs ih =>
    cases run with
    | nil => exact h.elim
    | cons x ys => exact List.forall_mem_cons.mpr ⟨List.cons_ne_nil x ys, ih h.2⟩

/-- The first greedy run holds whatever a filled run takes of the same items. -/
theorem Greedy.first_covers {x : α} {ys zs : List α} {runs : List (List α)} {rest : List α}
    (h : P.Greedy ((x :: ys) :: runs)) (hz : P.Filled (P.first x) zs) (heq : ys ++ runs.flatten = zs ++ rest) :
    ∃ ws, ys = zs ++ ws ∧ rest = ws ++ runs.flatten := by
  rcases List.append_eq_append_iff.mp heq with ⟨ws, hys, hruns⟩ | ⟨ws, hys, hrest⟩
  · cases ws with
    | nil => exact ⟨[], by rw [hys, List.append_nil, List.append_nil], by rw [hruns, List.nil_append, List.nil_append]⟩
    | cons w ws =>
      -- the run stops in front of `w`, which fits
      rw [hys, Filled.append] at hz
      cases runs with
      | nil => simp at hruns
      | cons run runs =>
        cases run with
        | nil => exact h.2.2.elim
        | cons z run =>
          rw [List.flatten_cons, List.cons_append, List.cons_append, List.cons.injEq] at hruns
          have hno := h.2.1 z run rfl
          rw [hruns.1] at hno
          exact absurd hz.2.1 hno
  · exact ⟨ws, hys, hrest⟩

theorem Greedy.unique {runs runs' : List (List α)} (h : P.Greedy runs) (h' : P.Greedy runs')
    (heq : runs.flatten = runs'.flatten) : runs = runs' := by
  induction runs generalizing runs' with
  | nil =>
    cases runs' with
    | nil => rfl
    | cons run' runs' =>
      have hne := Feasible.ne_nil P (Greedy.feasible P h') run' (by simp)
      exact absurd (List.append_eq_nil_iff.mp heq.symm).1 hne
  | cons run runs ih =>
    cases run with
    | nil => exact h.elim
    | cons x ys =>
      cases runs' with
      | nil => simp at heq
      | cons run' runs' =>
        cases run' with
        | nil => exact h'.elim
        | cons x' ys' =>
          rw [List.flatten_cons, List.flatten_cons, List.cons_append, List.cons_append, List.cons.injEq] at heq
          obtain ⟨rfl, heq⟩ := heq
          obtain ⟨ws, hys, hrest⟩ := Greedy.first_covers P h h'.1 heq
          obtain ⟨ws', hys', -⟩ := Greedy.first_covers P h' h.1 heq.symm
          have hnil : ws = [] := by
            have hlen := congrArg List.length hys
            have hlen' := congrArg List.length hys'
            rw [List.length_append] at hlen hlen'
            exact List.eq_nil_of_length_eq_zero (by omega)
          subst hnil
          rw [List.append_nil] at hys
          rw [List.nil_append] at hrest
          rw [hys, ih h.2.2 h'.2.2 hrest.symm]

/-- A lighter load takes whatever a heavier one takes. -/
structure Lighter (le : σ → σ → Prop) : Prop where
  fits : ∀ s t y, le s t → P.fits t y → P.fits s y
  add : ∀ s t y, le s t → le (P.add s y) (P.add t y)
  first : ∀ s y, le (P.first y) (P.add s y)

theorem Lighter.filled {le : σ → σ → Prop} (hle : P.Lighter le) {s t : σ} {ys : List α} (hst : le s t)
    (h : P.Filled t ys) : P.Filled s ys := by
  induction ys generalizing s t with
  | nil => trivial
  | cons y ys ih => exact ⟨hle.fits s t y hst h.1, ih (hle.add s t y hst) h.2⟩

/-- The end of a list that is cut into filled runs is cut into no more of them. -/
theorem Feasible.suffix {le : σ → σ → Prop} (hle : P.Lighter le) {runs : List (List α)} (h : P.Feasible runs)
    {front back : List α} (heq : runs.flatten = front ++ back) :
    ∃ runs', P.Feasible runs' ∧ runs'.flatten = back ∧ runs'.length ≤ runs.length := by
  induction front generalizing runs with
  | nil => exact ⟨runs, h, heq, Nat.le_refl _⟩
  | cons w front ih =>
    cases runs with
    | nil => simp at heq
    | cons run runs =>
      cases run with
      | nil => exact h.elim
      | cons x ys =>
        rw [List.flatten_cons, List.cons_append, List.cons_append, List.cons.injEq] at heq
        cases ys with
        | nil =>
          obtain ⟨runs', hfeasible, hflatten, hlen⟩ := ih h.2 (by simpa using heq.2)
          exact ⟨runs', hfeasible, hflatten, Nat.le_trans hlen (Nat.le_succ _)⟩
        | cons y ys =>
          have hfilled : P.Filled (P.first y) ys := Lighter.filled P hle (hle.first (P.first x) y) h.1.2
          have hcut : P.Feasible ((y :: ys) :: runs) := ⟨hfilled, h.2⟩
          have hrest : ((y :: ys) :: runs).flatten = front ++ back := by simpa using heq.2
          obtain ⟨runs', hfeasible, hflatten, hlen⟩ := ih hcut hrest
          exact ⟨runs', hfeasible, hflatten, hlen⟩

/-- No feasible cut has fewer runs than the greedy one. -/
theorem Greedy.length_le {le : σ → σ → Prop} (hle : P.Lighter le) {runs runs' : List (List α)} (h : P.Greedy runs)
    (h' : P.Feasible runs') (heq : runs.flatten = runs'.flatten) : runs.length ≤ runs'.length := by
  induction runs generalizing runs' with
  | nil => exact Nat.zero_le _
  | cons run runs ih =>
    cases run with
    | nil => exact h.elim
    | cons x ys =>
      cases runs' with
      | nil => simp at heq
      | cons run' runs' =>
        cases run' with
        | nil => exact h'.elim
        | cons x' zs =>
          rw [List.flatten_cons, List.flatten_cons, List.cons_append, List.cons_append, List.cons.injEq] at heq
          obtain ⟨rfl, heq⟩ := heq
          obtain ⟨ws, -, hrest⟩ := Greedy.first_covers P h h'.1 heq
          obtain ⟨runs'', hfeasible, hflatten, hlen⟩ := Feasible.suffix P hle h'.2 hrest
          have hgreedy := ih h.2.2 hfeasible hflatten.symm
          simp only [List.length_cons]
          omega

end Packer
end Lib
