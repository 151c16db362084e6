import Mathlib.Data.List.Basic

/-!
# Recency

A history of events, each of which may use some keys.

* `since uses h k` : the events behind the last use of a key; `since_snoc`;
* `UsedSince uses h k k'` : `k'` is used after the last use of `k`;
* `ByRecency uses h keys` : the keys stand from the most recently used one to the least; `snoc`, `use` : what an event
  does to the order; `oldest` : the last key.
-/

namespace Lib

variable {ε κ : Type} (uses : ε → κ → Bool)

/-- The events behind the last one that uses the key. -/
def since (h : List ε) (k : κ) : List ε := (h.reverse.takeWhile fun e => !uses e k).reverse

theorem since_snoc (h : List ε) (e : ε) (k : κ) :
    since uses (h ++ [e]) k = if uses e k then [] else since uses h k ++ [e] := by
  rw [since, List.reverse_append, List.reverse_singleton, List.singleton_append, List.takeWhile_cons]
  cases he : uses e k
  · rw [Bool.not_false, if_pos rfl, List.reverse_cons, if_neg Bool.false_ne_true, since]
  · rw [Bool.not_true, if_neg Bool.false_ne_true, List.reverse_nil, if_pos rfl]

/-- After its last use, the first key sees the second one used. -/
def UsedSince (h : List ε) (k k' : κ) : Prop := ∃ e ∈ since uses h k, uses e k' = true

/-- The keys have been used, the first one last. -/
structure ByRecency (h : List ε) (keys : List κ) : Prop where
  used : ∀ k ∈ keys, ∃ e ∈ h, uses e k = true
  ordered : keys.Pairwise fun k k' => UsedSince uses h k' k

namespace ByRecency
variable {uses} {h : List ε} {keys keys' : List κ} {e : ε} {k : κ}

theorem nil : ByRecency uses [] [] := ⟨fun _ hk => absurd hk List.not_mem_nil, List.Pairwise.nil⟩

theorem sublist (hr : ByRecency uses h keys) (hsub : keys'.Sublist keys) : ByRecency uses h keys' :=
  ⟨fun k hk => hr.used k (hsub.subset hk), hr.ordered.sublist hsub⟩

theorem snoc (hr : ByRecency uses h keys) (hnone : ∀ k ∈ keys, uses e k = false) : ByRecency uses (h ++ [e]) keys := by
  refine ⟨fun k hk => ?_, hr.ordered.imp_of_mem fun {k k'} _ hk' hsince => ?_⟩
  · obtain ⟨e', he', huse⟩ := hr.used k hk
    exact ⟨e', List.mem_append_left _ he', huse⟩
  · obtain ⟨e', he', huse⟩ := hsince
    refine ⟨e', ?_, huse⟩
    rw [since_snoc, hnone k' hk', if_neg Bool.false_ne_true]
    exact List.mem_append_left _ he'

theorem use (hr : ByRecency uses h keys) (huse : uses e k = true) (hnone : ∀ k' ∈ keys, uses e k' = false) :
    ByRecency uses (h ++ [e]) (k :: keys) := by
  have hrest := hr.snoc hnone
  refine ⟨fun k' hk' => ?_, List.pairwise_cons.mpr ⟨fun k' hk' => ?_, hrest.ordered⟩⟩
  · rcases List.mem_cons.mp hk' with rfl | hk'
    · exact ⟨e, by simp, huse⟩
    · exact hrest.used k' hk'
  · refine ⟨e, ?_, huse⟩
    rw [since_snoc, hnone k' hk', if_neg Bool.false_ne_true]
    simp

theorem oldest (hr : ByRecency uses h (keys ++ [k])) : ∀ k' ∈ keys, UsedSince uses h k k' := by
  intro k' hk'
  exact (List.pairwise_append.mp hr.ordered).2.2 k' hk' k (List.mem_singleton.mpr rfl)

end ByRecency

end Lib
