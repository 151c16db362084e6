import Cortrix.Lib.Table

/-!
# Tallies: one entry for each key, in the order of first appearance

A loop over a list keeps an entry for each key: the first element of a key opens it at the end, the later ones add to
it.

* `tally key new add xs` : the entries; `new` is also told how many there are already;
* `tally_keys` : the keys, each once; `tally_value` : the entry of a key depends on the elements of that key only;
* `upsertRow_eq_tallyStep` : the step as a write to a table.
-/

namespace Lib
variable {β κ σ : Type} [DecidableEq κ] (key : β → κ) (new : Nat → β → σ) (add : σ → β → σ)

def tallyStep (m : List (κ × σ)) (b : β) : List (κ × σ) :=
  if key b ∈ m.map Prod.fst then m.map fun e => if e.1 = key b then (e.1, add e.2 b) else e
  else m ++ [(key b, new m.length b)]

def tally (xs : List β) : List (κ × σ) := xs.foldl (tallyStep key new add) []

def share (k : κ) (xs : List β) : List β := xs.filter fun b => key b = k

/-- The entry that is opened as the `i`-th one. -/
def tallyEntry (i : Nat) : List β → Option σ
  | [] => none
  | b :: bs => some (bs.foldl add (new i b))

theorem eraseDups_snoc (xs : List κ) (x : κ) :
    (xs ++ [x]).eraseDups = if x ∈ xs then xs.eraseDups else xs.eraseDups ++ [x] := by
  rw [List.eraseDups_append]
  split
  · rename_i h
    simp [List.removeAll, h]
  · rename_i h
    simp [List.removeAll, h, List.eraseDups_cons]

theorem nodup_eraseDups (xs : List κ) : xs.eraseDups.Nodup := by
  induction xs using List.reverseRecOn with
  | nil => exact List.nodup_nil
  | append_singleton xs x ih =>
    rw [eraseDups_snoc]
    split
    · exact ih
    · rename_i hx
      exact List.nodup_append.mpr ⟨ih, List.nodup_singleton x, fun a ha b hb => by
        rw [List.mem_singleton.mp hb]
        exact fun heq => hx (heq ▸ List.mem_eraseDups.mp ha)⟩

theorem tally_snoc (xs : List β) (b : β) :
    tally key new add (xs ++ [b]) = tallyStep key new add (tally key new add xs) b := by
  rw [tally, List.foldl_append, List.foldl_cons, List.foldl_nil, tally]

theorem tally_keys (xs : List β) : (tally key new add xs).map Prod.fst = (xs.map key).eraseDups := by
  induction xs using List.reverseRecOn with
  | nil => rfl
  | append_singleton xs b ih =>
    have hmem : key b ∈ (tally key new add xs).map Prod.fst ↔ key b ∈ xs.map key := by rw [ih, List.mem_eraseDups]
    rw [tally_snoc, tallyStep, List.map_append, List.map_singleton, eraseDups_snoc]
    by_cases h : key b ∈ xs.map key
    · rw [if_pos (hmem.mpr h), if_pos h, List.map_map, ← ih]
      refine List.map_congr_left fun e _ => ?_
      simp only [Function.comp]
      split <;> rfl
    · rw [if_neg (fun h' => h (hmem.mp h')), if_neg h, List.map_append, ih, List.map_singleton]

theorem nodup_tally_keys (xs : List β) : ((tally key new add xs).map Prod.fst).Nodup := by
  rw [tally_keys]
  exact nodup_eraseDups _

theorem share_snoc (k : κ) (xs : List β) (b : β) :
    share key k (xs ++ [b]) = if key b = k then share key k xs ++ [b] else share key k xs := by
  rw [share, List.filter_append, share]
  split <;> simp_all

theorem tallyEntry_snoc (i : Nat) {xs : List β} {s : σ} (h : tallyEntry new add i xs = some s) (b : β) :
    tallyEntry new add i (xs ++ [b]) = some (add s b) := by
  cases xs with
  | nil => cases h
  | cons x xs =>
    rw [List.cons_append, tallyEntry, List.foldl_append, Option.some.inj h]
    rfl

theorem tally_value {xs : List β} {i : Nat} {k : κ} {s : σ} (h : (tally key new add xs)[i]? = some (k, s)) :
    tallyEntry new add i (share key k xs) = some s := by
  induction xs using List.reverseRecOn generalizing k s with
  | nil => simp [tally] at h
  | append_singleton xs b ih =>
    rw [tally_snoc, tallyStep] at h
    rw [share_snoc]
    split at h
    · rw [List.getElem?_map] at h
      obtain ⟨e, he, hes⟩ := Option.map_eq_some_iff.mp h
      by_cases hk : e.1 = key b
      · rw [if_pos hk] at hes
        cases hes
        rw [if_pos hk.symm]
        exact tallyEntry_snoc new add i (ih he) b
      · rw [if_neg hk] at hes
        subst hes
        rw [if_neg (Ne.symm hk)]
        exact ih he
    · rename_i hnew
      rw [List.getElem?_append] at h
      split at h
      · have hmem : k ∈ (tally key new add xs).map Prod.fst :=
          List.mem_map.mpr ⟨(k, s), List.mem_of_getElem? h, rfl⟩
        have hne : key b ≠ k := fun heq => hnew (heq ▸ hmem)
        rw [if_neg hne]
        exact ih h
      · rename_i hlen
        obtain ⟨hi, hes⟩ := List.getElem?_eq_some_iff.mp h
        rw [List.length_singleton] at hi
        simp only [List.getElem_singleton] at hes
        cases hes
        have hnone : share key (key b) xs = [] := List.filter_eq_nil_iff.mpr fun x hx hxb => by
          have hkey : key x = key b := by simpa using hxb
          rw [tally_keys, List.mem_eraseDups] at hnew
          exact hnew (hkey ▸ List.mem_map_of_mem hx)
        have hindex : i = (tally key new add xs).length := by omega
        rw [if_pos rfl, hnone, hindex]
        rfl

theorem upsertRow_eq_tallyStep {m : List (κ × σ)} (hkeyed : Keyed Prod.fst m) (b : β) (write : Option σ → σ)
    (hnew : write none = new m.length b) (hadd : ∀ s, (key b, s) ∈ m → write (some s) = add s b) :
    upsertRow Prod.fst (key b, write ((lookup Prod.fst (key b) m).map Prod.snd)) m = tallyStep key new add m b := by
  unfold upsertRow tallyStep
  split
  · rename_i t hins
    obtain ⟨hne, rfl⟩ := insertRow_eq_some.mp hins
    have hnone : lookup Prod.fst (key b) m = none := lookup_eq_none.mpr hne
    have hnot : key b ∉ m.map Prod.fst := by
      rintro hmem
      obtain ⟨e, he, hk⟩ := List.mem_map.mp hmem
      exact hne e he hk
    rw [if_neg hnot, hnone, Option.map_none, hnew]
  · rename_i hins
    obtain ⟨e, he, hk⟩ := insertRow_eq_none.mp hins
    have hk' : e.1 = key b := hk
    rw [if_pos (List.mem_map.mpr ⟨e, he, hk'⟩), updateWhere]
    refine List.map_congr_left fun e' he' => ?_
    by_cases hke : e'.1 = key b
    · have hl : lookup Prod.fst (key b) m = some e' := hke ▸ hkeyed.lookup_of_mem he'
      rw [if_pos hke, if_pos (by simpa using hke), hl, Option.map_some, hadd e'.2 (hke ▸ he'), hke]
    · rw [if_neg hke, if_neg (by simpa using hke)]

end Lib
