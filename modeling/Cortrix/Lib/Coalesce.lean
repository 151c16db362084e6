import Cortrix.Lib.Table

/-!
# Coalescing a batch of events by key

A batch is folded into a map with one entry for each key. An event says what becomes of the entry of its key, which it
may also take away.

* `entry k m`, `alter k f m` : the entry of a key, and the map with it changed;
* `coalesce key upd es` : the map of a batch;
* `entry_coalesce` : the entry of a key is what the events of that key make of nothing, one after the other.
-/

namespace Lib

variable {ε κ σ τ ο : Type}

section Map
variable [DecidableEq κ]

def entry (k : κ) (m : List (κ × σ)) : Option σ := (lookup Prod.fst k m).map Prod.snd

def alter (k : κ) (f : Option σ → Option σ) (m : List (κ × σ)) : List (κ × σ) :=
  match f (entry k m) with
  | some v => upsertRow Prod.fst (k, v) m
  | none => deleteWhere (fun e => e.1 == k) m

def coalesce (key : ε → κ) (upd : ε → Option σ → Option σ) (es : List ε) : List (κ × σ) :=
  es.foldl (fun m e => alter (key e) (upd e) m) []

variable {k : κ} {v : σ} {m : List (κ × σ)} {f : Option σ → Option σ}

/-! ## The map -/

theorem entry_upsertRow (k' : κ) (v : σ) (m : List (κ × σ)) :
    entry k (upsertRow Prod.fst (k', v) m) = if k = k' then some v else entry k m := by
  unfold entry
  rw [lookup_upsertRow]
  split <;> rfl

theorem entry_deleteWhere (k' : κ) (m : List (κ × σ)) :
    entry k (deleteWhere (fun e => e.1 == k') m) = if k = k' then none else entry k m := by
  unfold entry lookup deleteWhere
  rw [List.find?_filter]
  split
  · rename_i hk
    rw [Option.map_eq_none_iff, List.find?_eq_none]
    intro e _
    rw [hk]
    by_cases he : e.1 = k' <;> simp [he]
  · rename_i hk
    congr 2
    funext e
    by_cases he : e.1 = k
    · simp [he, hk]
    · simp [he]

theorem entry_alter (k' : κ) (f : Option σ → Option σ) (m : List (κ × σ)) :
    entry k (alter k' f m) = if k = k' then f (entry k m) else entry k m := by
  unfold alter
  split
  · rename_i v hv
    rw [entry_upsertRow]
    split
    · rename_i hk
      rw [hk, hv]
    · rfl
  · rename_i hv
    rw [entry_deleteWhere]
    split
    · rename_i hk
      rw [hk, hv]
    · rfl

theorem keyed_alter (h : Keyed Prod.fst m) : Keyed Prod.fst (alter k f m) := by
  unfold alter
  split
  · exact h.upsertRow
  · exact h.deleteWhere

variable (key : ε → κ) (upd : ε → Option σ → Option σ)

theorem keyed_coalesce (es : List ε) : Keyed Prod.fst (coalesce key upd es) := by
  unfold coalesce
  induction es using List.reverseRecOn with
  | nil => exact Keyed.nil
  | append_singleton es e ih =>
    rw [List.foldl_append]
    exact keyed_alter ih

theorem entry_coalesce (k : κ) (es : List ε) :
    entry k (coalesce key upd es) = (es.filter fun e => key e == k).foldl (fun o e => upd e o) none := by
  induction es using List.reverseRecOn with
  | nil => rfl
  | append_singleton es e ih =>
    have hstep : coalesce key upd (es ++ [e]) = alter (key e) (upd e) (coalesce key upd es) := by
      unfold coalesce
      rw [List.foldl_append]
      rfl
    rw [hstep, entry_alter, ih, List.filter_append]
    by_cases hk : key e = k
    · simp [hk]
    · simp [hk, Ne.symm hk]

theorem mem_iff_entry (h : Keyed Prod.fst m) : (k, v) ∈ m ↔ entry k m = some v := by
  unfold entry
  constructor
  · intro hmem
    rcases hl : lookup Prod.fst k m with - | e
    · exact absurd rfl (lookup_eq_none.mp hl (k, v) hmem)
    · obtain ⟨he, hk⟩ := lookup_eq_some hl
      rw [← h.eq_of_key hmem he hk.symm]
      rfl
  · intro hl
    obtain ⟨e, he, rfl⟩ := Option.map_eq_some_iff.mp hl
    obtain ⟨hmem, hk⟩ := lookup_eq_some he
    rw [← hk]
    exact hmem

end Map

/-! ## Working the entries off -/

section Entries
variable {k : κ} {step : τ → κ × σ → τ} {obs : κ → τ → ο} {todo : List κ → τ → Prop} {entryOk : κ × σ → Prop}

variable (step obs todo entryOk) in
/-- A step for one entry, which touches what belongs to its key; `todo ks t` is what the steps for `ks` rely on. -/
def Local : Prop :=
  ∀ e ks t, entryOk e → e.1 ∉ ks → todo (e.1 :: ks) t →
    todo ks (step t e) ∧ ∀ k, k ≠ e.1 → obs k (step t e) = obs k t

theorem Local.foldl_other (h : Local step obs todo entryOk) {l : List (κ × σ)} {t : τ} (hok : ∀ e ∈ l, entryOk e)
    (hl : Keyed Prod.fst l) (ht : todo (l.map Prod.fst) t) (hk : k ∉ l.map Prod.fst) :
    obs k (l.foldl step t) = obs k t := by
  induction l generalizing t with
  | nil => rfl
  | cons e l ih =>
    obtain ⟨hnot, hl⟩ := List.nodup_cons.mp hl
    obtain ⟨hne, hk⟩ := not_or.mp (mt List.mem_cons.mpr hk)
    obtain ⟨ht', hobs⟩ := h e _ t (hok e List.mem_cons_self) hnot ht
    rw [List.foldl_cons, ih (fun e' he' => hok e' (List.mem_cons_of_mem _ he')) hl ht' hk]
    exact hobs k hne

/-- What belongs to the key of an entry is in the end what the step for this entry makes of it. -/
theorem Local.foldl_self (h : Local step obs todo entryOk) {l : List (κ × σ)} {t : τ} (hok : ∀ e ∈ l, entryOk e)
    (hl : Keyed Prod.fst l) (ht : todo (l.map Prod.fst) t) {e : κ × σ} (he : e ∈ l) :
    ∃ ks t', todo (e.1 :: ks) t' ∧ obs e.1 t' = obs e.1 t ∧ obs e.1 (l.foldl step t) = obs e.1 (step t' e) := by
  induction l generalizing t with
  | nil => cases he
  | cons x l ih =>
    obtain ⟨hnot, hl'⟩ := List.nodup_cons.mp hl
    have hok' : ∀ e' ∈ l, entryOk e' := fun e' he' => hok e' (List.mem_cons_of_mem _ he')
    obtain ⟨ht', hobs⟩ := h x _ t (hok x List.mem_cons_self) hnot ht
    rcases List.mem_cons.mp he with rfl | he
    · exact ⟨_, t, ht, rfl, h.foldl_other hok' hl' ht' hnot⟩
    · obtain ⟨ks, t₁, h₁, hsame, hend⟩ := ih hok' hl' ht' he
      have hne : e.1 ≠ x.1 := fun heq => hnot (heq ▸ List.mem_map_of_mem he)
      exact ⟨ks, t₁, h₁, hsame.trans (hobs e.1 hne), hend⟩

end Entries

end Lib
