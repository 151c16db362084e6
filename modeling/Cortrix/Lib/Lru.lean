import Cortrix.Lib.Table

/-!
# A least-recently-used cache

The entries from the most recently used to the least; a table with the key as its primary key.

* `touch` : a hit moves its entry to the front; `put` : a new entry goes to the front, and the last one out when the
  capacity is exceeded, but never the new one; `forget` : an entry is dropped;
* `mem_touch`, `mem_put`, `mem_forget` : where the entries of the result come from;
* `deleteWhere_split`, `perm_deleteWhere` : what is left when one row of a keyed table is taken out.
-/

namespace Lib

variable {κ ν : Type}

def touch [DecidableEq κ] (e : κ × ν) (lru : List (κ × ν)) : List (κ × ν) := e :: deleteWhere (fun e' => e'.1 == e.1) lru

def put (capacity : Nat) (e : κ × ν) (lru : List (κ × ν)) : List (κ × ν) :=
  if capacity < (e :: lru).length ∧ 1 < (e :: lru).length then (e :: lru).dropLast else e :: lru

def forget [DecidableEq κ] (key : κ) (lru : List (κ × ν)) : List (κ × ν) := deleteWhere (fun e => e.1 == key) lru

variable {e e' : κ × ν} {lru : List (κ × ν)}

theorem mem_touch [DecidableEq κ] (h : e' ∈ touch e lru) : e' = e ∨ e' ∈ lru := by
  rcases List.mem_cons.mp h with he | hmem
  · exact .inl he
  · exact .inr (mem_deleteWhere.mp hmem).1

theorem mem_put {capacity : Nat} (h : e' ∈ put capacity e lru) : e' = e ∨ e' ∈ lru := by
  unfold put at h
  split at h
  · exact List.mem_cons.mp (List.dropLast_subset _ h)
  · exact List.mem_cons.mp h

theorem mem_forget [DecidableEq κ] {key : κ} : e ∈ forget key lru ↔ e ∈ lru ∧ e.1 ≠ key := by
  rw [forget, mem_deleteWhere, beq_eq_false_iff_ne]

theorem mem_foldl_forget [DecidableEq κ] {keys : List κ} :
    e ∈ keys.foldl (fun lru key => forget key lru) lru ↔ e ∈ lru ∧ e.1 ∉ keys := by
  induction keys generalizing lru with
  | nil => simp
  | cons key keys ih =>
    rw [List.foldl_cons, ih, mem_forget, List.mem_cons, not_or, and_assoc]

/-! ## One entry of a keyed table -/

section
variable {ρ : Type} [DecidableEq κ] {key : ρ → κ} {r : ρ} {t xs ys : List ρ}

theorem deleteWhere_split (h : Keyed key (xs ++ r :: ys)) :
    deleteWhere (fun r' => key r' == key r) (xs ++ r :: ys) = xs ++ ys := by
  rw [Keyed, List.map_append, List.map_cons, List.nodup_append, List.nodup_cons] at h
  obtain ⟨-, ⟨hys, -⟩, hxs⟩ := h
  have hleft : deleteWhere (fun r' => key r' == key r) xs = xs := by
    refine deleteWhere_eq_self.mpr fun r' hr' => beq_eq_false_iff_ne.mpr ?_
    exact hxs (key r') (List.mem_map_of_mem hr') (key r) List.mem_cons_self
  have hright : deleteWhere (fun r' => key r' == key r) ys = ys := by
    refine deleteWhere_eq_self.mpr fun r' hr' => beq_eq_false_iff_ne.mpr fun heq => hys ?_
    exact List.mem_map.mpr ⟨r', hr', heq⟩
  unfold deleteWhere at hleft hright ⊢
  rw [List.filter_append, List.filter_cons, hleft, hright]
  simp

omit [DecidableEq κ] in
theorem Keyed.not_mem_right (h : Keyed key (xs ++ ys)) (hr : r ∈ xs) : key r ∉ ys.map key := by
  rw [Keyed, List.map_append, List.nodup_append] at h
  intro hmem
  exact h.2.2 (key r) (List.mem_map_of_mem hr) (key r) hmem rfl

theorem perm_deleteWhere (h : Keyed key t) (hr : r ∈ t) :
    t.Perm (r :: deleteWhere (fun r' => key r' == key r) t) := by
  obtain ⟨xs, ys, rfl⟩ := List.append_of_mem hr
  rw [deleteWhere_split h]
  exact List.perm_middle

end

end Lib
