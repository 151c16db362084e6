import Mathlib.Data.List.Perm.Basic
import Mathlib.Data.List.Nodup
import Mathlib.Tactic.Linarith

/-!
# Borda counts

Each ballot ranks the candidates `0, …, n - 1`; the candidate at rank `r` gets `n - r` points.

* `addBallot`, `points` : the points after one ballot, after a list of them; `standing` : the candidates by their points,
  in their own order where these are equal;
* `standing_perm` : the standing ranks every candidate once.
-/

namespace Lib

/-- The points of a ballot, `r` being the rank of its first candidate. -/
def addBallot (n : Nat) : Nat → List Nat → List Nat → List Nat
  | _, points, [] => points
  | r, points, c :: ballot => addBallot n (r + 1) (points.modify c (· + (n - r))) ballot

def standing (n : Nat) (points : List Nat) : List Nat :=
  (List.range n).mergeSort fun a b => decide (points.getD b 0 ≤ points.getD a 0)

variable (n : Nat) {c k : Nat} {points ballot : List Nat}

theorem addBallot_length (r : Nat) (points ballot : List Nat) :
    (addBallot n r points ballot).length = points.length := by
  induction ballot generalizing r points with
  | nil => rfl
  | cons c ballot ih => rw [addBallot, ih, List.length_modify]

theorem getD_modify (points : List Nat) (f : Nat → Nat) (hk : k < points.length) :
    (points.modify c f).getD k 0 = if c = k then f (points.getD k 0) else points.getD k 0 := by
  rw [List.getD_eq_getElem?_getD, List.getElem?_modify, List.getD_eq_getElem?_getD, List.getElem?_eq_getElem hk]
  split <;> rfl

theorem addBallot_notMem {r : Nat} (hk : k < points.length) (h : k ∉ ballot) :
    (addBallot n r points ballot).getD k 0 = points.getD k 0 := by
  induction ballot generalizing r points with
  | nil => rfl
  | cons c ballot ih =>
    rw [List.mem_cons, not_or] at h
    rw [addBallot, ih (by rwa [List.length_modify]) h.2, getD_modify points _ hk, if_neg (Ne.symm h.1)]

/-- A candidate of a ballot without repetitions gets at most the points of its first rank. -/
theorem addBallot_le {r : Nat} (hk : k < points.length) (h : ballot.Nodup) :
    (addBallot n r points ballot).getD k 0 ≤ points.getD k 0 + (n - r) := by
  induction ballot generalizing r points with
  | nil => exact Nat.le_add_right _ _
  | cons c ballot ih =>
    rw [List.nodup_cons] at h
    have hk' : k < (points.modify c (· + (n - r))).length := by rwa [List.length_modify]
    rw [addBallot]
    by_cases hc : c = k
    · subst hc
      rw [addBallot_notMem n hk' h.1, getD_modify points _ hk, if_pos rfl]
    · have hrest := ih (r := r + 1) hk' h.2
      rw [getD_modify points _ hk, if_neg hc] at hrest
      omega

theorem addBallot_first (hc : c < points.length) (h : (c :: ballot).Nodup) :
    (addBallot n 0 points (c :: ballot)).getD c 0 = points.getD c 0 + n := by
  have hc' : c < (points.modify c (· + (n - 0))).length := by rwa [List.length_modify]
  rw [addBallot, addBallot_notMem n hc' (List.nodup_cons.mp h).1, getD_modify points _ hc, if_pos rfl, Nat.sub_zero]

theorem addBallot_others (hk : k < points.length) (h : (c :: ballot).Nodup) (hne : k ≠ c) :
    (addBallot n 0 points (c :: ballot)).getD k 0 ≤ points.getD k 0 + (n - 1) := by
  have hk' : k < (points.modify c (· + (n - 0))).length := by rwa [List.length_modify]
  have hrest := addBallot_le n (r := 1) hk' (List.nodup_cons.mp h).2
  rwa [getD_modify points _ hk, if_neg (Ne.symm hne)] at hrest

theorem standing_perm (points : List Nat) : (standing n points).Perm (List.range n) :=
  List.mergeSort_perm _ _

/-- The candidate with most points stands first. -/
theorem standing_head {n : Nat} (hc : c < n) (h : ∀ k < n, k ≠ c → points.getD k 0 < points.getD c 0) :
    (standing n points).head? = some c := by
  have hsorted : (standing n points).Pairwise fun a b => points.getD b 0 ≤ points.getD a 0 := by
    have hpairwise : (standing n points).Pairwise fun a b => decide (points.getD b 0 ≤ points.getD a 0) :=
      List.pairwise_mergeSort
        (fun a b c hab hbc => by simpa using Nat.le_trans (by simpa using hbc) (by simpa using hab))
        (fun a b => by simpa using Nat.le_total _ _) (List.range n)
    exact hpairwise.imp fun hab => by simpa using hab
  have hperm := standing_perm n points
  have hmem : c ∈ standing n points := hperm.mem_iff.mpr (List.mem_range.mpr hc)
  cases hstanding : standing n points with
  | nil =>
    rw [hstanding] at hmem
    exact absurd hmem (by simp)
  | cons d rest =>
    rw [hstanding] at hmem hsorted hperm
    rcases List.mem_cons.mp hmem with rfl | hrest
    · rfl
    · have hle := (List.pairwise_cons.mp hsorted).1 c hrest
      have hd : d < n := List.mem_range.mp (hperm.mem_iff.mp (by simp))
      by_cases hdc : d = c
      · rw [hdc]
        rfl
      · exact absurd (h d hd hdc) (Nat.not_lt.mpr hle)

end Lib
