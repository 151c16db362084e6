import Mathlib.Algebra.GroupWithZero.Nat
import Mathlib.Data.List.Dedup
import Mathlib.Data.List.Induction
import Mathlib.Data.List.Perm.Basic

/-!
# Grouping a list by an optional key

`buckets key xs` collects the elements of one key behind the first of them, in the order in which the keys first
appear; an element without a key is a bucket of its own.

* `buckets_perm` : every element is in exactly one bucket; `buckets_length` counts them, `length_eq` by the keys;
* `buckets_firsts_sublist` : the first elements stand in the order of the list, no two with one key
  (`buckets_firsts_keys`).
-/

namespace Lib

/-- A first element and those of the same key behind it. -/
structure Bucket (α : Type) where
  first : α
  rest : List α

namespace Bucket
variable {α κ : Type}

def all (g : Bucket α) : List α := g.first :: g.rest

variable [DecidableEq κ] (key : α → Option κ)

/-- Put `x` behind the bucket of its key, or open one. -/
def place (x : α) : List (Bucket α) → List (Bucket α)
  | [] => [⟨x, []⟩]
  | g :: gs =>
    if key g.first = key x ∧ (key x).isSome then { g with rest := g.rest ++ [x] } :: gs
    else g :: place x gs

def buckets (xs : List α) : List (Bucket α) := xs.foldl (fun gs x => place key x gs) []

variable {key}

theorem place_perm (x : α) (gs : List (Bucket α)) :
    ((place key x gs).flatMap all).Perm (gs.flatMap all ++ [x]) := by
  induction gs with
  | nil => exact List.Perm.refl _
  | cons g gs ih =>
    rw [place]
    split
    · rw [List.flatMap_cons, List.flatMap_cons, List.append_assoc]
      show (g.first :: (g.rest ++ [x]) ++ _).Perm (g.first :: g.rest ++ _)
      rw [← List.cons_append, List.append_assoc]
      exact List.Perm.append_left _ List.perm_append_comm
    · rw [List.flatMap_cons, List.flatMap_cons, List.append_assoc]
      exact ih.append_left _

variable (key) in
/-- Either some bucket has the key of `x`, and the first elements stay, or `x` opens a bucket at the end. -/
theorem place_firsts (x : α) (gs : List (Bucket α)) :
    (place key x gs).map first = gs.map first ∨
      (place key x gs).map first = gs.map first ++ [x] ∧
        ∀ g ∈ gs, key g.first = key x → key x = none := by
  induction gs with
  | nil => exact .inr ⟨rfl, by simp⟩
  | cons g gs ih =>
    rw [place]
    split
    · exact .inl rfl
    · rename_i hother
      rcases ih with hsame | ⟨hnew, hkeys⟩
      · exact .inl (by rw [List.map_cons, hsame, List.map_cons])
      · refine .inr ⟨by rw [List.map_cons, hnew, List.map_cons, List.cons_append], fun h hh hkey => ?_⟩
        rcases List.mem_cons.mp hh with rfl | hmem
        · by_contra hne
          exact hother ⟨hkey, Option.isSome_iff_ne_none.mpr hne⟩
        · exact hkeys h hmem hkey

theorem place_rest {x : α} {gs : List (Bucket α)} {g : Bucket α} (hg : g ∈ place key x gs) {y : α} (hy : y ∈ g.rest) :
    (∃ g' ∈ gs, g'.first = g.first ∧ y ∈ g'.rest) ∨
      y = x ∧ (∃ g' ∈ gs, g'.first = g.first) ∧ key g.first = key x ∧ (key x).isSome := by
  induction gs with
  | nil =>
    rw [place, List.mem_singleton] at hg
    rw [hg] at hy
    exact absurd hy (by simp)
  | cons h gs ih =>
    rw [place] at hg
    split at hg
    · rename_i hkey
      rcases List.mem_cons.mp hg with rfl | hmem
      · rcases List.mem_append.mp hy with hold | hnew
        · exact .inl ⟨h, by simp, rfl, hold⟩
        · exact .inr ⟨by simpa using hnew, ⟨h, by simp, rfl⟩, hkey⟩
      · exact .inl ⟨g, by simp [hmem], rfl, hy⟩
    · rcases List.mem_cons.mp hg with rfl | hmem
      · exact .inl ⟨g, by simp, rfl, hy⟩
      · rcases ih hmem with ⟨g', hg', hrest⟩ | ⟨rfl, ⟨g', hg', hfirst⟩, hkey⟩
        · exact .inl ⟨g', by simp [hg'], hrest⟩
        · exact .inr ⟨rfl, ⟨g', by simp [hg'], hfirst⟩, hkey⟩

theorem buckets_snoc (xs : List α) (x : α) : buckets key (xs ++ [x]) = place key x (buckets key xs) := by
  unfold buckets
  rw [List.foldl_append]
  rfl

theorem buckets_perm (xs : List α) : ((buckets key xs).flatMap all).Perm xs := by
  induction xs using List.reverseRecOn with
  | nil => exact List.Perm.refl _
  | append_singleton xs x ih =>
    rw [buckets_snoc]
    exact (place_perm x _).trans (ih.append_right _)

variable (key) in
theorem buckets_length (xs : List α) :
    (buckets key xs).length + ((buckets key xs).map fun g => g.rest.length).sum = xs.length := by
  have hsum : ∀ gs : List (Bucket α), (gs.flatMap all).length = gs.length + (gs.map fun g => g.rest.length).sum := by
    intro gs
    induction gs with
    | nil => rfl
    | cons g gs ih =>
      rw [List.flatMap_cons, List.length_append, ih, List.map_cons, List.sum_cons, List.length_cons, all,
        List.length_cons]
      omega
  rw [← hsum, (buckets_perm xs).length_eq]

theorem buckets_firsts_sublist (xs : List α) : ((buckets key xs).map first).Sublist xs := by
  induction xs using List.reverseRecOn with
  | nil => exact List.Sublist.refl _
  | append_singleton xs x ih =>
    rw [buckets_snoc]
    rcases place_firsts key x (buckets key xs) with hsame | ⟨hnew, -⟩
    · rw [hsame]
      exact ih.trans (List.sublist_append_left _ _)
    · rw [hnew]
      exact ih.append (List.Sublist.refl _)

theorem buckets_firsts_keys (xs : List α) :
    ((buckets key xs).map first).Pairwise fun a b => key a = key b → key b = none := by
  induction xs using List.reverseRecOn with
  | nil => exact List.Pairwise.nil
  | append_singleton xs x ih =>
    rw [buckets_snoc]
    rcases place_firsts key x (buckets key xs) with hsame | ⟨hnew, hkeys⟩
    · rw [hsame]
      exact ih
    · rw [hnew]
      refine List.pairwise_append.mpr ⟨ih, List.pairwise_singleton _ _, fun a ha b hb => ?_⟩
      obtain ⟨g, hg, rfl⟩ := List.mem_map.mp ha
      rw [List.mem_singleton.mp hb]
      exact hkeys g hg

/-- What stands behind a first element has its key, and is related to it as a later element of the list. -/
theorem buckets_rest {R : α → α → Prop} {xs : List α} (hR : xs.Pairwise R) {g : Bucket α} (hg : g ∈ buckets key xs)
    {y : α} (hy : y ∈ g.rest) : key y = key g.first ∧ (key y).isSome ∧ R g.first y := by
  induction xs using List.reverseRecOn generalizing g y with
  | nil => exact absurd hg (by simp [buckets])
  | append_singleton xs x ih =>
    rw [buckets_snoc] at hg
    obtain ⟨hxs, -, hlater⟩ := List.pairwise_append.mp hR
    rcases place_rest hg hy with ⟨g', hg', hfirst, hrest⟩ | ⟨rfl, ⟨g', hg', hfirst⟩, hkey, hsome⟩
    · rw [← hfirst]
      exact ih hxs hg' hrest
    · have hmem : g'.first ∈ xs := (buckets_firsts_sublist xs).subset (List.mem_map_of_mem hg')
      rw [hfirst] at hmem
      exact ⟨hkey.symm, hsome, hlater _ hmem _ (by simp)⟩

/-- When every element has a key, each bucket is the elements of its key. -/
theorem buckets_all {xs : List α} (hsome : ∀ x ∈ xs, (key x).isSome) {g : Bucket α} (hg : g ∈ buckets key xs) :
    g.all.Perm (xs.filter fun x => decide (key x = key g.first)) := by
  have hmem : ∀ g ∈ buckets key xs, g.first ∈ xs := fun g hg =>
    (buckets_firsts_sublist xs).subset (List.mem_map_of_mem hg)
  have hother : (buckets key xs).Pairwise fun g h => key g.first ≠ key h.first := by
    refine (List.pairwise_map.mp (buckets_firsts_keys xs)).imp_of_mem fun {g h} _ hh hkeys heq => ?_
    have hnone : key h.first = none := hkeys heq
    exact absurd (hsome _ (hmem h hh)) (by simp [hnone])
  have hkey : ∀ g ∈ buckets key xs, ∀ x ∈ g.all, key x = key g.first := by
    intro g hg x hx
    rcases List.mem_cons.mp hx with rfl | hrest
    · rfl
    · exact (buckets_rest (R := fun _ _ => True) (List.pairwise_of_forall fun _ _ => trivial) hg hrest).1
  -- of all buckets, exactly `g` passes the filter
  have hfilter : ∀ gs : List (Bucket α), (∀ g ∈ gs, ∀ x ∈ g.all, key x = key g.first) →
      (gs.Pairwise fun g h => key g.first ≠ key h.first) → g ∈ gs →
      (gs.flatMap all).filter (fun x => decide (key x = key g.first)) = g.all := by
    intro gs hkey hne hg
    have hdrop : ∀ hs : List (Bucket α), (∀ h ∈ hs, ∀ x ∈ h.all, key x ≠ key g.first) →
        (hs.flatMap all).filter (fun x => decide (key x = key g.first)) = [] := by
      intro hs hall
      rw [List.filter_eq_nil_iff]
      intro x hx
      obtain ⟨h, hh, hx⟩ := List.mem_flatMap.mp hx
      simpa using hall h hh x hx
    obtain ⟨before, after, rfl⟩ := List.append_of_mem hg
    obtain ⟨-, hafter, hbefore⟩ := List.pairwise_append.mp hne
    have hself : g.all.filter (fun x => decide (key x = key g.first)) = g.all :=
      List.filter_eq_self.mpr fun x hx => decide_eq_true (hkey g hg x hx)
    rw [List.flatMap_append, List.flatMap_cons, List.filter_append, List.filter_append, hself, hdrop before,
      hdrop after, List.nil_append, List.append_nil]
    · intro h hh x hx
      rw [hkey h (by simp [hh]) x hx]
      exact ((List.pairwise_cons.mp hafter).1 h hh).symm
    · intro h hh x hx
      rw [hkey h (by simp [hh]) x hx]
      exact hbefore h hh g (by simp)
  rw [← hfilter _ hkey hother hg]
  exact (buckets_perm xs).filter _

omit [DecidableEq κ] in
theorem flatMap_all_length {gs : List (Bucket α)}
    (hrest : ∀ g ∈ gs, ∀ y ∈ g.rest, (key y).isSome) :
    (gs.flatMap all).length + ((gs.map first).filterMap key).length =
      gs.length + ((gs.flatMap all).filterMap key).length := by
  induction gs with
  | nil => rfl
  | cons g gs ih =>
    have hkeyed : (g.rest.filterMap key).length = g.rest.length := by
      rw [List.filterMap_length_eq_length]
      exact hrest g (by simp)
    have ih := ih fun h hh => hrest h (by simp [hh])
    rw [List.flatMap_cons, List.filterMap_append, List.length_append, List.length_append, List.map_cons, all]
    rcases hk : key g.first with - | k
    · rw [List.filterMap_cons_none hk, List.filterMap_cons_none hk]
      simp only [List.length_cons]
      omega
    · rw [List.filterMap_cons_some hk, List.filterMap_cons_some hk]
      simp only [List.length_cons]
      omega

/-- There are as many buckets as elements without a key and keys. -/
theorem length_eq {gs : List (Bucket α)} {xs : List α} (hall : (gs.flatMap all).Perm xs)
    (hrest : ∀ g ∈ gs, ∀ y ∈ g.rest, key y = key g.first ∧ (key y).isSome)
    (hkeys : (gs.map first).Pairwise fun a b => key a = key b → key b = none) :
    gs.length + (xs.filterMap key).length = xs.length + (xs.filterMap key).dedup.length := by
  have hcount := flatMap_all_length fun g hg y hy => (hrest g hg y hy).2
  have hnodup : ((gs.map first).filterMap key).Nodup := by
    refine List.pairwise_filterMap.mpr (hkeys.imp ?_)
    rintro a b hab k hk _ hk' rfl
    rw [hab (hk.trans hk'.symm)] at hk'
    cases hk'
  have hsame : ∀ k, k ∈ (gs.map first).filterMap key ↔ k ∈ (xs.filterMap key).dedup := by
    intro k
    rw [List.mem_dedup, List.mem_filterMap, List.mem_filterMap]
    constructor
    · rintro ⟨a, ha, hk⟩
      obtain ⟨g, hg, rfl⟩ := List.mem_map.mp ha
      exact ⟨g.first, hall.mem_iff.mp (List.mem_flatMap.mpr ⟨g, hg, List.mem_cons_self⟩), hk⟩
    · rintro ⟨y, hy, hk⟩
      obtain ⟨g, hg, hy⟩ := List.mem_flatMap.mp (hall.mem_iff.mpr hy)
      refine ⟨g.first, List.mem_map_of_mem hg, ?_⟩
      rcases List.mem_cons.mp hy with rfl | hy
      · exact hk
      · rw [← (hrest g hg y hy).1]
        exact hk
  have hlen := ((List.perm_ext_iff_of_nodup hnodup (List.nodup_dedup _)).mpr hsame).length_eq
  rw [hall.length_eq, (hall.filterMap key).length_eq, hlen] at hcount
  omega

end Bucket
end Lib
