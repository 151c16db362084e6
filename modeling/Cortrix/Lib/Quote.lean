import Mathlib.Data.List.Infix

/-!
# Quoted literals with doubled quotes

Between two quotes stands any text, with each quote in it written twice.

* `double q s` : the body that spells `s`; `quoted q s` : the literal;
* `readBody q s` : a reader behind an opening quote: the text, and what follows the closing quote, if there is one;
  `readBody_quoted` : it reads back what was quoted, wherever no quote follows the literal;
* `undouble q s` : the text a body spells, when it has no quote outside a pair; `undouble_double`.
-/

namespace Lib.Quote

variable {α : Type} [DecidableEq α] (q : α)

def double (s : List α) : List α := s.flatMap fun c => if c = q then [c, c] else [c]

def quoted (s : List α) : List α := q :: (double q s ++ [q])

/-- Behind an opening quote: the text up to the closing one, and the rest. -/
def readBody : List α → List α × Option (List α)
  | [] => ([], none)
  | [c] => if c = q then ([], some []) else ([c], none)
  | c :: d :: rest =>
    if c = q then
      if d = q then (q :: (readBody rest).1, (readBody rest).2) else ([], some (d :: rest))
    else (c :: (readBody (d :: rest)).1, (readBody (d :: rest)).2)

/-- The text of a body whose quotes all stand in pairs. -/
def undouble (s : List α) : Option (List α) :=
  match readBody q s with
  | (text, none) => some text
  | (_, some _) => none

/-! ## Doubling -/

@[simp] theorem double_nil : double q [] = [] := rfl

theorem double_cons_self (s : List α) : double q (q :: s) = q :: q :: double q s := by
  simp [double]

theorem double_cons_of_ne {c : α} (h : c ≠ q) (s : List α) : double q (c :: s) = c :: double q s := by
  simp [double, h]

theorem mem_double {c : α} {s : List α} : c ∈ double q s ↔ c ∈ s := by
  simp only [double, List.mem_flatMap]
  constructor
  · rintro ⟨d, hd, hc⟩
    split at hc <;> simp_all
  · intro hc
    exact ⟨c, hc, by split <;> simp⟩

/-! ## Reading -/

theorem readBody_cons_of_ne {c : α} (h : c ≠ q) (s : List α) :
    readBody q (c :: s) = (c :: (readBody q s).1, (readBody q s).2) := by
  cases s with
  | nil => simp [readBody, h]
  | cons d s => simp [readBody, h]

theorem readBody_pair (s : List α) : readBody q (q :: q :: s) = (q :: (readBody q s).1, (readBody q s).2) := by
  simp [readBody]

theorem readBody_end {rest : List α} (h : rest.head? ≠ some q) : readBody q (q :: rest) = ([], some rest) := by
  cases rest with
  | nil => simp [readBody]
  | cons d rest =>
    have hd : d ≠ q := by simpa using h
    simp [readBody, hd]

theorem readBody_double_append (s tail : List α) :
    readBody q (double q s ++ tail) = (s ++ (readBody q tail).1, (readBody q tail).2) := by
  induction s with
  | nil => rfl
  | cons c s ih =>
    by_cases hc : c = q
    · subst hc
      rw [double_cons_self, List.cons_append, List.cons_append, readBody_pair, ih, List.cons_append]
    · rw [double_cons_of_ne q hc, List.cons_append, readBody_cons_of_ne q hc, ih, List.cons_append]

theorem readBody_quoted (s : List α) {rest : List α} (h : rest.head? ≠ some q) :
    readBody q (double q s ++ q :: rest) = (s, some rest) := by
  rw [readBody_double_append, readBody_end q h, List.append_nil]

theorem readBody_double (s : List α) : readBody q (double q s) = (s, none) := by
  rw [← List.append_nil (double q s), readBody_double_append]
  simp [readBody]

@[simp] theorem undouble_double (s : List α) : undouble q (double q s) = some s := by
  rw [undouble, readBody_double]

theorem length_of_readBody {s rest : List α} (h : (readBody q s).2 = some rest) : rest.length < s.length := by
  fun_induction readBody q s with
  | case1 => cases h
  | case2 => cases h; simp
  | case3 => cases h
  | case4 rest' ih =>
    have := ih h
    simp only [List.length_cons]
    omega
  | case5 => cases h; simp
  | case6 c d rest' hc ih =>
    have := ih h
    simp only [List.length_cons] at this ⊢
    omega

end Lib.Quote
