import Cortrix.Lib.Lru

/-!
# TtlLruCache

The bounded cache of the router: the nodes from the most recently used to the least, each with the time it was
inserted at.

* `Mirrors f c` : every entry is what `f` says of its key; kept by the methods, and what a hit returns.
-/

namespace Cortrix.Catalog
open Lib

/-- `order_` with the key of each node; `index_` is its lookup. -/
structure TtlLruCache (κ ν : Type) where
  capacity : Nat
  ttlMs : Int
  order : List (κ × ν × Int) := []

namespace TtlLruCache
variable {κ ν : Type} [DecidableEq κ] (c : TtlLruCache κ ν)

/-- `Get`: an expired node is dropped, another one comes to the front. -/
def get (key : κ) (nowMs : Int) : Option ν × TtlLruCache κ ν :=
  match lookup Prod.fst key c.order with
  | none => (none, c)
  | some node =>
    if c.ttlMs ≤ nowMs - node.2.2 then (none, { c with order := forget key c.order })
    else (some node.2.1, { c with order := touch node c.order })

/-- `Put`: overwrites the node of the key, or evicts from the back while over the capacity. -/
def put (key : κ) (value : ν) (nowMs : Int) : TtlLruCache κ ν :=
  if c.capacity = 0 then c
  else
    match lookup Prod.fst key c.order with
    | some _ => { c with order := touch (key, value, nowMs) c.order }
    | none => { c with order := ((key, value, nowMs) :: c.order).take c.capacity }

def invalidate (key : κ) : TtlLruCache κ ν := { c with order := forget key c.order }

/-- Every entry is what the store behind the cache holds. -/
def Mirrors (f : κ → Option ν) (c : TtlLruCache κ ν) : Prop := ∀ e ∈ c.order, f e.1 = some e.2.1

variable {c} {f : κ → Option ν} {key : κ} {value : ν}

omit [DecidableEq κ] in
theorem Mirrors.empty (f : κ → Option ν) (capacity : Nat) (ttlMs : Int) : Mirrors f ⟨capacity, ttlMs, []⟩ := by
  intro e he
  cases he

theorem Mirrors.get (h : Mirrors f c) (key : κ) (nowMs : Int) : Mirrors f (c.get key nowMs).2 := by
  unfold TtlLruCache.get
  split
  · exact h
  · rename_i node hnode
    split
    · intro e he
      exact h e (mem_forget.mp he).1
    · intro e he
      rcases mem_touch he with rfl | he
      · exact h e (lookup_eq_some hnode).1
      · exact h e he

theorem Mirrors.hit (h : Mirrors f c) {nowMs : Int} (hget : (c.get key nowMs).1 = some value) : f key = some value := by
  unfold TtlLruCache.get at hget
  split at hget
  · cases hget
  · rename_i node hnode
    split at hget
    · cases hget
    · obtain ⟨hmem, rfl⟩ := lookup_eq_some hnode
      cases hget
      exact h node hmem

theorem Mirrors.put (h : Mirrors f c) (hvalue : f key = some value) (nowMs : Int) :
    Mirrors f (c.put key value nowMs) := by
  unfold TtlLruCache.put
  split
  · exact h
  · split
    · intro e he
      rcases mem_touch he with rfl | he
      · exact hvalue
      · exact h e he
    · intro e he
      rcases List.mem_cons.mp (List.mem_of_mem_take he) with rfl | he
      · exact hvalue
      · exact h e he

theorem Mirrors.invalidate (h : Mirrors f c) (key : κ) : Mirrors f (c.invalidate key) :=
  fun e he => h e (mem_forget.mp he).1

end TtlLruCache

end Cortrix.Catalog
