import Mathlib.Data.List.Basic
import Mathlib.Data.List.Pairwise

/-!
# Thinning a list by a relation

A list is gone through from the left; an element goes when one that was kept before it is related to it. Elements that
are gone already are passed over.

* `thin R K l` : the list with what is left of it; `K` are the elements kept in front of it;
* `live l` : the elements that are left; `pairwise_thin` : no two of them are related;
* `thin_eq_self` : a list without related elements stays as it is;
* `sweep R l` : each kept element removes those related to it; `sweep_eq_thin` : the same list.
-/

namespace Lib.Thinning
variable {α : Type} (R : α → α → Prop) [DecidableRel R]

/-- Elements with a flag: is the element still there? -/
abbrev Flagged (α : Type) := List (α × Bool)

def thin : List α → Flagged α → Flagged α
  | _, [] => []
  | K, (x, false) :: l => (x, false) :: thin K l
  | K, (x, true) :: l => if K.any (R · x) then (x, false) :: thin K l else (x, true) :: thin (K ++ [x]) l

def live (l : Flagged α) : List α := (l.filter fun e => e.2).map Prod.fst

theorem live_cons (e : α × Bool) (l : Flagged α) : live (e :: l) = if e.2 then e.1 :: live l else live l := by
  unfold live
  rw [List.filter_cons]
  split <;> rfl

theorem thin_fst (K : List α) (l : Flagged α) : (thin R K l).map Prod.fst = l.map Prod.fst := by
  induction l generalizing K with
  | nil => rfl
  | cons e l ih =>
    obtain ⟨x, _ | _⟩ := e
    · rw [thin, List.map_cons, ih, List.map_cons]
    · rw [thin]
      split
      · rw [List.map_cons, ih, List.map_cons]
      · rw [List.map_cons, ih, List.map_cons]

theorem live_thin_sublist (K : List α) (l : Flagged α) : (live (thin R K l)).Sublist (live l) := by
  induction l generalizing K with
  | nil => exact List.Sublist.refl _
  | cons e l ih =>
    obtain ⟨x, _ | _⟩ := e
    · exact ih K
    · rw [thin]
      split
      · exact (ih K).cons x
      · exact (ih (K ++ [x])).cons_cons x

/-- What is left is not related to anything kept in front of it. -/
theorem pairwise_thin (K : List α) (l : Flagged α) :
    (∀ k ∈ K, ∀ e ∈ thin R K l, e.2 = true → ¬ R k e.1) ∧
      (thin R K l).Pairwise fun a b => a.2 = true → b.2 = true → ¬ R a.1 b.1 := by
  induction l generalizing K with
  | nil => exact ⟨by simp [thin], List.Pairwise.nil⟩
  | cons e l ih =>
    obtain ⟨x, _ | _⟩ := e
    · obtain ⟨hK, hpair⟩ := ih K
      rw [thin]
      exact ⟨fun k hk => List.forall_mem_cons.mpr ⟨by simp, hK k hk⟩, List.pairwise_cons.mpr ⟨by simp, hpair⟩⟩
    · rw [thin]
      split
      · obtain ⟨hK, hpair⟩ := ih K
        exact ⟨fun k hk => List.forall_mem_cons.mpr ⟨by simp, hK k hk⟩, List.pairwise_cons.mpr ⟨by simp, hpair⟩⟩
      · rename_i hnone
        obtain ⟨hK, hpair⟩ := ih (K ++ [x])
        refine ⟨fun k hk => List.forall_mem_cons.mpr ⟨fun _ hR => ?_, hK k (List.mem_append_left _ hk)⟩,
          List.pairwise_cons.mpr ⟨fun e he _ he' => hK x (by simp) e he he', hpair⟩⟩
        exact hnone (List.any_eq_true.mpr ⟨k, hk, by simpa using hR⟩)

theorem pairwise_at {β : Type} {S : β → β → Prop} {l : List β} (h : l.Pairwise S) {i j : Nat} {a b : β}
    (hi : l[i]? = some a) (hj : l[j]? = some b) (hlt : i < j) : S a b := by
  obtain ⟨hi', rfl⟩ := List.getElem?_eq_some_iff.mp hi
  obtain ⟨hj', rfl⟩ := List.getElem?_eq_some_iff.mp hj
  exact List.pairwise_iff_getElem.mp h i j hi' hj' hlt

theorem pairwise_live {S : α → α → Prop} {l : Flagged α}
    (h : l.Pairwise fun a b => a.2 = true → b.2 = true → S a.1 b.1) : (live l).Pairwise S := by
  refine List.pairwise_map.mpr ((h.sublist List.filter_sublist).imp_of_mem fun {a b} ha hb hab => ?_)
  exact hab (by simpa using (List.mem_filter.mp ha).2) (by simpa using (List.mem_filter.mp hb).2)

/-- An element that goes is related to one that stays. -/
theorem exists_of_thinned {K : List α} {l : Flagged α} {j : Nat} {x : α} (hl : l[j]? = some (x, true))
    (hgone : (thin R K l)[j]? = some (x, false)) :
    ∃ k, R k x ∧ (k ∈ K ∨ ∃ i < j, (thin R K l)[i]? = some (k, true)) := by
  induction l generalizing K j with
  | nil => simp at hl
  | cons e l ih =>
    obtain ⟨y, _ | _⟩ := e
    · cases j with
      | zero => simp at hl
      | succ j =>
        rw [thin] at hgone ⊢
        obtain ⟨k, hR, hk | ⟨i, hi, hk⟩⟩ := ih hl hgone
        · exact ⟨k, hR, .inl hk⟩
        · exact ⟨k, hR, .inr ⟨i + 1, Nat.succ_lt_succ hi, hk⟩⟩
    · by_cases hany : K.any (R · y) = true
      · rw [thin, if_pos hany] at hgone ⊢
        cases j with
        | zero =>
          obtain rfl : y = x := by simpa using hl
          obtain ⟨k, hk, hR⟩ := List.any_eq_true.mp hany
          exact ⟨k, by simpa using hR, .inl hk⟩
        | succ j =>
          obtain ⟨k, hR, hk | ⟨i, hi, hk⟩⟩ := ih hl hgone
          · exact ⟨k, hR, .inl hk⟩
          · exact ⟨k, hR, .inr ⟨i + 1, Nat.succ_lt_succ hi, hk⟩⟩
      · rw [thin, if_neg hany] at hgone ⊢
        cases j with
        | zero => simp at hgone
        | succ j =>
          obtain ⟨k, hR, hk | ⟨i, hi, hk⟩⟩ := ih hl hgone
          · rcases List.mem_append.mp hk with hk | hk
            · exact ⟨k, hR, .inl hk⟩
            · rw [List.mem_singleton.mp hk] at hR
              exact ⟨y, hR, .inr ⟨0, Nat.succ_pos j, rfl⟩⟩
          · exact ⟨k, hR, .inr ⟨i + 1, Nat.succ_lt_succ hi, hk⟩⟩

theorem thin_eq_self {K : List α} {l : Flagged α} (hK : ∀ k ∈ K, ∀ x ∈ live l, ¬ R k x)
    (hpair : (live l).Pairwise fun a b => ¬ R a b) : thin R K l = l := by
  induction l generalizing K with
  | nil => rfl
  | cons e l ih =>
    obtain ⟨x, _ | _⟩ := e
    · rw [live_cons] at hK hpair
      rw [thin, ih hK hpair]
    · rw [live_cons, if_pos rfl] at hK hpair
      obtain ⟨hx, hpair⟩ := List.pairwise_cons.mp hpair
      have hnone : ¬ K.any (R · x) = true := by
        intro hany
        obtain ⟨k, hk, hR⟩ := List.any_eq_true.mp hany
        exact hK k hk x (by simp) (by simpa using hR)
      rw [thin, if_neg hnone, ih _ hpair]
      intro k hk y hy
      rcases List.mem_append.mp hk with hk | hk
      · exact hK k hk y (List.mem_cons_of_mem _ hy)
      · rw [List.mem_singleton.mp hk]
        exact hx y hy

/-! ## Sweeps -/

/-- The elements related to `k` go. -/
def hit (k : α) (e : α × Bool) : α × Bool := if e.2 ∧ R k e.1 then (e.1, false) else e

/-- The elements related to one of `K` go. -/
def hitAny (K : List α) (e : α × Bool) : α × Bool := if e.2 ∧ K.any (R · e.1) then (e.1, false) else e

theorem hit_hitAny (K : List α) (k : α) (e : α × Bool) : hit R k (hitAny R K e) = hitAny R (K ++ [k]) e := by
  obtain ⟨x, _ | _⟩ := e
  · rfl
  · unfold hit hitAny
    by_cases hK : K.any (R · x) = true
    · simp [hK]
    · by_cases hk : R k x <;> simp [hK, hk]

theorem hitAny_nil (e : α × Bool) : hitAny R [] e = e := by
  simp [hitAny]

def hitAll (k : α) (l : Flagged α) : Flagged α := l.map (hit R k)

@[simp] theorem length_hitAll (k : α) (l : Flagged α) : (hitAll R k l).length = l.length := List.length_map _

/-- Each element that is still there removes those related to it. -/
def sweep : Flagged α → Flagged α
  | [] => []
  | (x, false) :: l => (x, false) :: sweep l
  | (x, true) :: l => (x, true) :: sweep (hitAll R x l)
termination_by l => l.length

theorem sweep_map_hitAny (K : List α) (l : Flagged α) : sweep R (l.map (hitAny R K)) = thin R K l := by
  induction l generalizing K with
  | nil =>
    rw [List.map_nil, sweep]
    rfl
  | cons e l ih =>
    obtain ⟨x, _ | _⟩ := e
    · have hx : hitAny R K (x, false) = (x, false) := rfl
      rw [List.map_cons, hx, sweep, thin, ih K]
    · by_cases hany : K.any (R · x) = true
      · have hx : hitAny R K (x, true) = (x, false) := if_pos ⟨rfl, hany⟩
        rw [List.map_cons, hx, sweep, thin, if_pos hany, ih K]
      · have hx : hitAny R K (x, true) = (x, true) := if_neg fun h => hany h.2
        rw [List.map_cons, hx, sweep, thin, if_neg hany, hitAll, List.map_map]
        simp only [Function.comp_def, hit_hitAny]
        rw [ih (K ++ [x])]

theorem sweep_eq_thin (l : Flagged α) : sweep R l = thin R [] l := by
  have h := sweep_map_hitAny R [] l
  rwa [show l.map (hitAny R []) = l from (List.map_congr_left fun e _ => hitAny_nil R e).trans (List.map_id l)] at h

end Lib.Thinning
