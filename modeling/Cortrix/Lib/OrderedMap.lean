import Mathlib.Data.List.Basic
import Mathlib.Order.Lattice

/-!
# Ordered maps

A map that is walked in the order of its keys.

* `OrderedMap κ ν` : the entries, the keys strictly increasing; `set` : writes the value of a key;
* `set_entries_of_lt` : a key behind all others is appended; `foldl_set_entries` : entries written in order are the
  entries of the map.
-/

namespace Lib

variable {κ ν : Type} [LinearOrder κ]

@[ext] structure OrderedMap (κ ν : Type) [LinearOrder κ] where
  entries : List (κ × ν)
  sorted : entries.Pairwise fun a b => a.1 < b.1

namespace OrderedMap

def empty : OrderedMap κ ν := ⟨[], List.Pairwise.nil⟩

def setEntry (key : κ) (value : ν) : List (κ × ν) → List (κ × ν)
  | [] => [(key, value)]
  | e :: es =>
    if key < e.1 then (key, value) :: e :: es
    else if e.1 < key then e :: setEntry key value es
    else (key, value) :: es

theorem key_mem_setEntry {key : κ} {value : ν} {es : List (κ × ν)} {a : κ × ν} (h : a ∈ setEntry key value es) :
    a.1 = key ∨ a ∈ es := by
  induction es with
  | nil => exact .inl (congrArg Prod.fst (List.mem_singleton.mp h))
  | cons e es ih =>
    rw [setEntry] at h
    split at h
    · rcases List.mem_cons.mp h with rfl | h
      · exact .inl rfl
      · exact .inr h
    · split at h
      · rcases List.mem_cons.mp h with rfl | h
        · exact .inr List.mem_cons_self
        · exact (ih h).imp_right (List.mem_cons_of_mem e)
      · rcases List.mem_cons.mp h with rfl | h
        · exact .inl rfl
        · exact .inr (List.mem_cons_of_mem e h)

theorem sorted_setEntry (key : κ) (value : ν) {es : List (κ × ν)} (h : es.Pairwise fun a b => a.1 < b.1) :
    (setEntry key value es).Pairwise fun a b => a.1 < b.1 := by
  induction es with
  | nil => exact List.pairwise_singleton _ _
  | cons e es ih =>
    obtain ⟨hhead, htail⟩ := List.pairwise_cons.mp h
    rw [setEntry]
    split
    · rename_i hlt
      refine List.pairwise_cons.mpr ⟨fun a ha => ?_, h⟩
      rcases List.mem_cons.mp ha with rfl | ha
      · exact hlt
      · exact lt_trans hlt (hhead a ha)
    · split
      · rename_i hlt
        refine List.pairwise_cons.mpr ⟨fun a ha => ?_, ih htail⟩
        rcases key_mem_setEntry ha with hkey | ha
        · rwa [hkey]
        · exact hhead a ha
      · rename_i hge hle
        have hkey : key = e.1 := le_antisymm (not_lt.mp hle) (not_lt.mp hge)
        refine List.pairwise_cons.mpr ⟨fun a ha => ?_, htail⟩
        rw [hkey]
        exact hhead a ha

def set (m : OrderedMap κ ν) (key : κ) (value : ν) : OrderedMap κ ν :=
  ⟨setEntry key value m.entries, sorted_setEntry key value m.sorted⟩

theorem setEntry_of_lt {key : κ} {value : ν} {es : List (κ × ν)} (h : ∀ e ∈ es, e.1 < key) :
    setEntry key value es = es ++ [(key, value)] := by
  induction es with
  | nil => rfl
  | cons e es ih =>
    have hlt := h e List.mem_cons_self
    rw [setEntry, if_neg (lt_asymm hlt), if_pos hlt, ih fun a ha => h a (List.mem_cons_of_mem e ha), List.cons_append]

theorem set_entries_of_lt {m : OrderedMap κ ν} {key : κ} {value : ν} (h : ∀ e ∈ m.entries, e.1 < key) :
    (m.set key value).entries = m.entries ++ [(key, value)] := setEntry_of_lt h

theorem foldl_set_entries {m : OrderedMap κ ν} {es : List (κ × ν)}
    (h : (m.entries ++ es).Pairwise fun a b => a.1 < b.1) :
    (es.foldl (fun m e => m.set e.1 e.2) m).entries = m.entries ++ es := by
  induction es generalizing m with
  | nil => exact (List.append_nil _).symm
  | cons e es ih =>
    have hlt : ∀ a ∈ m.entries, a.1 < e.1 := fun a ha =>
      (List.pairwise_append.mp h).2.2 a ha e List.mem_cons_self
    have hset : (m.set e.1 e.2).entries = m.entries ++ [e] := set_entries_of_lt hlt
    rw [List.append_cons, ← hset] at h
    rw [List.foldl_cons, ih h, hset, ← List.append_cons]

end OrderedMap

end Lib
