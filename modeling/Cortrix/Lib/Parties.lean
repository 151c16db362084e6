import Mathlib.Data.List.Perm.Basic

/-!
# Parties that move one at a time

The parties of a system are a list of their states; a step replaces one of them.

* `exists_others` : a party that moves, and the others, that do not;
* `mem_set_self`, `mem_set_of_mem`, `forall_mem_set` : who is there after the move.
-/

namespace Lib

variable {α : Type} {l : List α} {i : Nat} {old new x : α}

theorem exists_others (h : l[i]? = some old) (new : α) :
    ∃ others, l.Perm (old :: others) ∧ (l.set i new).Perm (new :: others) := by
  obtain ⟨hi, rfl⟩ := List.getElem?_eq_some_iff.mp h
  exact ⟨l.eraseIdx i, (List.getElem_cons_eraseIdx_perm hi).symm, List.set_perm_cons_eraseIdx hi new⟩

theorem mem_set_self (h : l[i]? = some old) (new : α) : new ∈ l.set i new :=
  List.mem_set (List.getElem?_eq_some_iff.mp h).1 new

theorem mem_set_of_mem (h : l[i]? = some old) (new : α) (hx : x ∈ l) : x = old ∨ x ∈ l.set i new := by
  obtain ⟨others, hl, hset⟩ := exists_others h new
  rcases List.mem_cons.mp (hl.mem_iff.mp hx) with rfl | hx
  · exact .inl rfl
  · exact .inr (hset.mem_iff.mpr (List.mem_cons_of_mem _ hx))

theorem forall_mem_set {P : α → Prop} (h : ∀ x ∈ l, P x) (hnew : P new) : ∀ x ∈ l.set i new, P x := by
  intro x hx
  rcases List.mem_or_eq_of_mem_set hx with hx | rfl
  · exact h x hx
  · exact hnew

end Lib
