import Cortrix.Catalog.TtlLruCache

/-!
# The index of the cache

`TtlLruCache` as it is stored: a list of nodes, which stay at their addresses, and an index from each key to the
address of its node. A dereference of an iterator that points to no node is `none`.

* `get_refines`, `put_refines`, `invalidate_refines` : on such a cache no method fails, and each does to the nodes what
  the cache without an index does.
-/

namespace Cortrix.Catalog
open Lib

structure CacheNode (κ ν : Type) where
  key : κ
  value : ν
  insertedMs : Int

/-- Nodes with their addresses, an iterator being an address; `nextAddr` is the address of the next new node. -/
structure IndexedCache (κ ν : Type) where
  capacity : Nat
  ttlMs : Int
  order : List (Nat × CacheNode κ ν) := []
  index : List (κ × Nat) := []
  nextAddr : Nat := 0

namespace TtlLruCache

def evicted {κ ν : Type} [DecidableEq κ] (c : TtlLruCache κ ν) (key : κ) : List κ :=
  if c.capacity = 0 then []
  else
    match lookup Prod.fst key c.order with
    | some _ => []
    | none => ((c.order.drop (c.capacity - 1)).map Prod.fst).reverse

end TtlLruCache

namespace IndexedCache
variable {κ ν : Type} [DecidableEq κ] (c : IndexedCache κ ν)

def expired (node : CacheNode κ ν) (nowMs : Int) : Bool := c.ttlMs ≤ nowMs - node.insertedMs

def deref (addr : Nat) : Option (CacheNode κ ν) := (lookup Prod.fst addr c.order).map Prod.snd

def touch (addr : Nat) : Option (IndexedCache κ ν) :=
  (lookup Prod.fst addr c.order).map fun n => { c with order := n :: deleteWhere (fun n' => n'.1 == addr) c.order }

def erase (it : κ × Nat) : Option (IndexedCache κ ν) :=
  (lookup Prod.fst it.2 c.order).map fun _ => { c with
    order := deleteWhere (fun n => n.1 == it.2) c.order
    index := deleteWhere (fun e => e.1 == it.1) c.index }

def evictLru : List κ × IndexedCache κ ν :=
  match c.order.getLast? with
  | none => ([], c)
  | some n => ([n.2.key], { c with
      order := c.order.dropLast
      index := deleteWhere (fun e => e.1 == n.2.key) c.index })

/-- `while (index_.size() > capacity_)`; `none` when so many turns do not end it. -/
def evictLoop : Nat → IndexedCache κ ν → Option (List κ × IndexedCache κ ν)
  | 0, c => if c.capacity < c.index.length then none else some ([], c)
  | fuel + 1, c =>
    if c.capacity < c.index.length then
      (evictLoop fuel c.evictLru.2).map fun r => (c.evictLru.1 ++ r.1, r.2)
    else some ([], c)

def get (key : κ) (nowMs : Int) : Option (Option ν × IndexedCache κ ν) :=
  match lookup Prod.fst key c.index with
  | none => some (none, c)
  | some it => do
    let node ← c.deref it.2
    if c.expired node nowMs then do
      let c ← c.erase it
      some (none, c)
    else do
      let c ← c.touch it.2
      some (some node.value, c)

/-- `Put`, and the keys that it evicts. -/
def put (key : κ) (value : ν) (nowMs : Int) : Option (List κ × IndexedCache κ ν) :=
  if c.capacity = 0 then some ([], c)
  else
    match lookup Prod.fst key c.index with
    | some it => do
      let node ← c.deref it.2
      let node := { node with value := value, insertedMs := nowMs }
      let c := { c with order := updateWhere (fun n => n.1 == it.2) (fun n => (n.1, node)) c.order }
      let c ← c.touch it.2
      some ([], c)
    | none =>
      let c := { c with
        order := (c.nextAddr, ⟨key, value, nowMs⟩) :: c.order
        index := upsertRow Prod.fst (key, c.nextAddr) c.index
        nextAddr := c.nextAddr + 1 }
      evictLoop c.index.length c

def invalidate (key : κ) : Option (IndexedCache κ ν) :=
  match lookup Prod.fst key c.index with
  | none => some c
  | some it => c.erase it

def clear : IndexedCache κ ν := { c with order := [], index := [] }

def keyOf (n : Nat × CacheNode κ ν) : κ := n.2.key

def entryOf (n : Nat × CacheNode κ ν) : κ × Nat := (n.2.key, n.1)

def rowOf (n : Nat × CacheNode κ ν) : κ × ν × Int := (n.2.key, n.2.value, n.2.insertedMs)

def view : TtlLruCache κ ν := ⟨c.capacity, c.ttlMs, c.order.map rowOf⟩

/-- The index holds an entry for each node and no other. -/
structure Linked : Prop where
  entries : c.index.Perm (c.order.map entryOf)
  keys : Keyed keyOf c.order
  addrs : Keyed Prod.fst c.order
  fresh : ∀ n ∈ c.order, n.1 < c.nextAddr

structure Rep : Prop extends Linked c where
  bounded : c.order.length ≤ c.capacity

omit [DecidableEq κ] in
theorem Rep.empty (capacity : Nat) (ttlMs : Int) : Rep (⟨capacity, ttlMs, [], [], 0⟩ : IndexedCache κ ν) :=
  ⟨⟨List.Perm.nil, Keyed.nil, Keyed.nil, fun _ hn => absurd hn List.not_mem_nil⟩, Nat.zero_le _⟩

namespace Linked
variable {c} (h : Linked c) {c' : IndexedCache κ ν} {key : κ} {n : Nat × CacheNode κ ν}

omit [DecidableEq κ] in
theorem of_shape (h : Linked c) (hindex : c'.index = c.index) (hnext : c'.nextAddr = c.nextAddr)
    (hperm : (c'.order.map entryOf).Perm (c.order.map entryOf)) : Linked c' := by
  have hkeys : ((c'.order.map entryOf).map Prod.fst).Nodup := by
    refine ((hperm.map Prod.fst).nodup_iff).mpr ?_
    rw [List.map_map]
    exact h.keys
  have haddrs : ((c'.order.map entryOf).map Prod.snd).Nodup := by
    refine ((hperm.map Prod.snd).nodup_iff).mpr ?_
    rw [List.map_map]
    exact h.addrs
  rw [List.map_map] at hkeys haddrs
  refine ⟨?_, hkeys, haddrs, fun n hn => ?_⟩
  · rw [hindex]
    exact h.entries.trans hperm.symm
  · obtain ⟨m, hm, heq⟩ := List.mem_map.mp (hperm.mem_iff.mp (List.mem_map_of_mem hn))
    have haddr : m.1 = n.1 := congrArg Prod.snd heq
    rw [hnext, ← haddr]
    exact h.fresh m hm

include h

omit [DecidableEq κ] in
theorem index_keyed : Keyed Prod.fst c.index := by
  have hkeys := h.keys
  unfold Keyed at hkeys ⊢
  refine ((h.entries.map Prod.fst).nodup_iff).mpr ?_
  rwa [List.map_map]

omit [DecidableEq κ] in
theorem length_index : c.index.length = c.order.length := by
  rw [h.entries.length_eq, List.length_map]

theorem find (key : κ) :
    (lookup Prod.fst key c.index = none ∧ lookup Prod.fst key c.view.order = none ∧ ∀ n ∈ c.order, keyOf n ≠ key) ∨
    ∃ n ∈ c.order, keyOf n = key ∧ lookup Prod.fst key c.index = some (entryOf n) ∧
      lookup Prod.fst key c.view.order = some (rowOf n) := by
  by_cases hex : ∃ n ∈ c.order, keyOf n = key
  · obtain ⟨n, hn, rfl⟩ := hex
    refine .inr ⟨n, hn, rfl, ?_, ?_⟩
    · exact h.index_keyed.lookup_of_mem (h.entries.mem_iff.mpr (List.mem_map_of_mem hn))
    · have hrows : Keyed Prod.fst c.view.order := by
        have hkeys := h.keys
        unfold Keyed at hkeys ⊢
        rw [view, List.map_map]
        exact hkeys
      exact hrows.lookup_of_mem (r := rowOf n) (List.mem_map_of_mem hn)
  · rw [not_exists] at hex
    refine .inl ⟨lookup_eq_none.mpr fun e he => ?_, lookup_eq_none.mpr fun e he => ?_, fun n hn heq => hex n ⟨hn, heq⟩⟩
    · obtain ⟨n, hn, rfl⟩ := List.mem_map.mp (h.entries.mem_iff.mp he)
      exact fun heq => hex n ⟨hn, heq⟩
    · obtain ⟨n, hn, rfl⟩ := List.mem_map.mp he
      exact fun heq => hex n ⟨hn, heq⟩

theorem delete_addr (hn : n ∈ c.order) :
    deleteWhere (fun n' => n'.1 == n.1) c.order = deleteWhere (fun n' => keyOf n' == keyOf n) c.order := by
  refine deleteWhere_inj.mpr fun n' hn' => ?_
  rw [beq_iff_eq, beq_iff_eq]
  constructor
  · intro heq
    rw [h.addrs.eq_of_key hn' hn heq]
  · intro heq
    rw [h.keys.eq_of_key hn' hn heq]

theorem delete (key : κ) : Linked { c with
    order := deleteWhere (fun n => keyOf n == key) c.order
    index := deleteWhere (fun e => e.1 == key) c.index } := by
  refine ⟨?_, h.keys.deleteWhere, h.addrs.deleteWhere, fun n hn => h.fresh n (mem_deleteWhere.mp hn).1⟩
  have hfilter := h.entries.filter fun e => !(e.1 == key)
  rwa [List.filter_map] at hfilter

omit [DecidableEq κ] in
theorem lookup_addr (hn : n ∈ c.order) : lookup Prod.fst n.1 c.order = some n := h.addrs.lookup_of_mem hn

theorem erase_eq (hn : n ∈ c.order) : ∃ c', c.erase (entryOf n) = some c' ∧ Linked c' ∧
    c'.view = { c.view with order := forget (keyOf n) c.view.order } := by
  refine ⟨_, ?_, h.delete (keyOf n), ?_⟩
  · have hdelete := h.delete_addr hn
    unfold erase entryOf
    rw [h.lookup_addr hn, hdelete, Option.map_some]
    rfl
  · unfold view forget
    dsimp only
    rw [deleteWhere, deleteWhere, List.filter_map]
    rfl

theorem rows_delete (hn : n ∈ c.order) :
    (deleteWhere (fun n' => n'.1 == n.1) c.order).map rowOf = forget (keyOf n) c.view.order := by
  rw [h.delete_addr hn, forget, deleteWhere, deleteWhere, view, List.filter_map]
  rfl

theorem touch_eq (hn : n ∈ c.order) : ∃ c', c.touch n.1 = some c' ∧ Linked c' ∧ c'.order.length = c.order.length ∧
    c'.view = { c.view with order := Lib.touch (rowOf n) c.view.order } := by
  have hperm := perm_deleteWhere h.keys hn
  refine ⟨{ c with order := n :: deleteWhere (fun n' => n'.1 == n.1) c.order }, ?_, ?_, ?_, ?_⟩
  · rw [touch, h.lookup_addr hn, Option.map_some]
  · refine h.of_shape rfl rfl (List.Perm.map entryOf ?_)
    rw [h.delete_addr hn]
    exact hperm.symm
  · rw [h.delete_addr hn]
    exact hperm.length_eq.symm
  · rw [view, List.map_cons, h.rows_delete hn, Lib.touch, forget]
    rfl

omit [DecidableEq κ] in
theorem write (hn : n ∈ c.order) (node : CacheNode κ ν) (hkey : node.key = keyOf n) :
    let c' := { c with order := updateWhere (fun n' => n'.1 == n.1) (fun n' => (n'.1, node)) c.order }
    Linked c' ∧ (n.1, node) ∈ c'.order ∧
      (deleteWhere (fun n' => n'.1 == n.1) c'.order) = deleteWhere (fun n' => n'.1 == n.1) c.order := by
  intro c'
  have hshape : c'.order.map entryOf = c.order.map entryOf := by
    dsimp only [c']
    rw [updateWhere, List.map_map]
    refine List.map_congr_left fun m hm => ?_
    rw [Function.comp_apply]
    split
    · rename_i haddr
      rw [entryOf, entryOf, hkey, h.addrs.eq_of_key hm hn (beq_iff_eq.mp haddr), keyOf]
    · rfl
  refine ⟨h.of_shape rfl rfl (by rw [hshape]), ?_, ?_⟩
  · have hmem := mem_updateWhere_of_mem (p := fun n' => n'.1 == n.1) (f := fun n' => (n'.1, node)) hn
    rwa [if_pos (beq_self_eq_true n.1)] at hmem
  · exact deleteWhere_updateWhere (p := fun n' => n'.1 == n.1) (f := fun n' => (n'.1, node))
      (fun m hm => ⟨hm, hm⟩) c.order

theorem push {node : CacheNode κ ν} (hnew : ∀ n ∈ c.order, keyOf n ≠ node.key) : Linked { c with
    order := (c.nextAddr, node) :: c.order
    index := upsertRow Prod.fst (node.key, c.nextAddr) c.index
    nextAddr := c.nextAddr + 1 } := by
  have hindex : upsertRow Prod.fst (node.key, c.nextAddr) c.index = c.index ++ [(node.key, c.nextAddr)] := by
    have hins : insertRow Prod.fst (node.key, c.nextAddr) c.index = some (c.index ++ [(node.key, c.nextAddr)]) := by
      refine insertRow_eq_some.mpr ⟨fun e he => ?_, rfl⟩
      obtain ⟨n, hn, rfl⟩ := List.mem_map.mp (h.entries.mem_iff.mp he)
      exact hnew n hn
    rw [upsertRow, hins]
  refine ⟨?_, ?_, ?_, fun n hn => ?_⟩
  · rw [hindex, List.map_cons]
    exact (List.perm_append_singleton _ _).trans (h.entries.cons _)
  · refine List.nodup_cons.mpr ⟨fun hmem => ?_, h.keys⟩
    obtain ⟨n, hn, heq⟩ := List.mem_map.mp hmem
    exact hnew n hn heq
  · refine List.nodup_cons.mpr ⟨fun hmem => ?_, h.addrs⟩
    obtain ⟨n, hn, heq⟩ := List.mem_map.mp hmem
    exact absurd heq (Nat.ne_of_lt (h.fresh n hn))
  · rcases List.mem_cons.mp hn with rfl | hn
    · exact Nat.lt_succ_self _
    · exact Nat.lt_succ_of_lt (h.fresh n hn)

theorem evictLru_eq {nodes : List (Nat × CacheNode κ ν)} (hlast : c.order = nodes ++ [n]) :
    c.evictLru.1 = [keyOf n] ∧ Linked c.evictLru.2 ∧ c.evictLru.2.order = nodes ∧
      c.evictLru.2.capacity = c.capacity ∧ c.evictLru.2.ttlMs = c.ttlMs := by
  have hdelete : deleteWhere (fun m => keyOf m == keyOf n) c.order = nodes := by
    have hkeys := h.keys
    rw [hlast] at hkeys ⊢
    rw [deleteWhere_split hkeys, List.append_nil]
  have heq : c.evictLru = ([keyOf n], { c with
      order := nodes
      index := deleteWhere (fun e => e.1 == keyOf n) c.index }) := by
    rw [evictLru, hlast, List.getLast?_concat, List.dropLast_concat]
    rfl
  have hlinked := h.delete (keyOf n)
  rw [hdelete] at hlinked
  rw [heq]
  exact ⟨rfl, hlinked, rfl, rfl, rfl⟩

omit h in
theorem evictLoop_eq {fuel : Nat} (h : Linked c) (hfuel : c.order.length ≤ c.capacity + fuel) :
    ∃ c', evictLoop fuel c = some (((c.order.drop c.capacity).map keyOf).reverse, c') ∧ Rep c' ∧
      c'.view = { c.view with order := c.view.order.take c.capacity } := by
  induction fuel generalizing c with
  | zero =>
    rw [Nat.add_zero] at hfuel
    refine ⟨c, ?_, ⟨h, hfuel⟩, ?_⟩
    · rw [evictLoop, h.length_index, if_neg (by omega), List.drop_eq_nil_of_le hfuel, List.map_nil, List.reverse_nil]
    · rw [List.take_of_length_le (by rw [view, List.length_map]; exact hfuel)]
  | succ fuel ih =>
    by_cases hover : c.capacity < c.order.length
    · rcases List.eq_nil_or_concat' c.order with hnil | ⟨nodes, n, hlast⟩
      · rw [hnil] at hover
        exact absurd hover (Nat.not_lt_zero _)
      · obtain ⟨hkey, hlinked, horder, hcap, httl⟩ := h.evictLru_eq hlast
        have hlen : c.order.length = nodes.length + 1 := by rw [hlast, List.length_append, List.length_singleton]
        obtain ⟨c', hloop, hrep, hview⟩ := ih hlinked (by rw [horder, hcap]; omega)
        refine ⟨c', ?_, hrep, ?_⟩
        · rw [evictLoop, h.length_index, if_pos hover, hloop, Option.map_some, hkey, horder, hcap, hlast,
            List.drop_append_of_le_length (by omega), List.map_append, List.reverse_append]
          rfl
        · rw [hview, view, view, horder, hcap, httl, hlast, ← List.map_take, ← List.map_take,
            List.take_append_of_le_length (by omega)]
    · refine ⟨c, ?_, ⟨h, Nat.not_lt.mp hover⟩, ?_⟩
      · rw [evictLoop, h.length_index, if_neg hover, List.drop_eq_nil_of_le (Nat.not_lt.mp hover), List.map_nil,
          List.reverse_nil]
      · rw [List.take_of_length_le (by rw [view, List.length_map]; exact Nat.not_lt.mp hover)]

end Linked

/-! ## The methods -/

namespace Rep
variable {c} (h : Rep c)
include h

omit h [DecidableEq κ] in
theorem of_view {c' : IndexedCache κ ν} (hlinked : Linked c') (hle : c'.view.order.length ≤ c'.view.capacity) :
    Rep c' := by
  rw [view, List.length_map] at hle
  exact ⟨hlinked, hle⟩

theorem erase_refines {n : Nat × CacheNode κ ν} (hn : n ∈ c.order) : ∃ c', c.erase (entryOf n) = some c' ∧ Rep c' ∧
    c'.view = { c.view with order := forget (keyOf n) c.view.order } := by
  obtain ⟨c', herase, hlinked, hview⟩ := h.erase_eq hn
  refine ⟨c', herase, of_view hlinked ?_, hview⟩
  rw [hview]
  refine Nat.le_trans (List.length_filter_le _ _) ?_
  rw [view, List.length_map]
  exact h.bounded

theorem touch_refines {n : Nat × CacheNode κ ν} (hn : n ∈ c.order) : ∃ c', c.touch n.1 = some c' ∧ Rep c' ∧
    c'.view = { c.view with order := Lib.touch (rowOf n) c.view.order } := by
  obtain ⟨c', htouch, hlinked, hlen, hview⟩ := h.touch_eq hn
  have hcap : c'.capacity = c.capacity := congrArg TtlLruCache.capacity hview
  refine ⟨c', htouch, ⟨hlinked, ?_⟩, hview⟩
  rw [hlen, hcap]
  exact h.bounded

theorem get_refines (key : κ) (nowMs : Int) : ∃ c', c.get key nowMs = some ((c.view.get key nowMs).1, c') ∧ Rep c' ∧
    c'.view = (c.view.get key nowMs).2 := by
  rcases h.find key with ⟨hindex, hrow, -⟩ | ⟨n, hn, rfl, hindex, hrow⟩
  · refine ⟨c, ?_, h, ?_⟩
    · rw [get, hindex, TtlLruCache.get, hrow]
    · rw [TtlLruCache.get, hrow]
  · have hderef : c.deref (entryOf n).2 = some n.2 := by rw [deref, entryOf, h.lookup_addr hn, Option.map_some]
    rw [get, hindex, TtlLruCache.get, hrow]
    simp only [Option.bind_eq_bind, hderef, Option.bind_some, expired, decide_eq_true_eq]
    have hexpired : c.view.ttlMs ≤ nowMs - (rowOf n).2.2 ↔ c.ttlMs ≤ nowMs - n.2.insertedMs := Iff.rfl
    by_cases hold : c.ttlMs ≤ nowMs - n.2.insertedMs
    · obtain ⟨c', herase, hrep, hview⟩ := h.erase_refines hn
      rw [if_pos hold, if_pos (hexpired.mpr hold), herase]
      exact ⟨c', rfl, hrep, hview⟩
    · obtain ⟨c', htouch, hrep, hview⟩ := h.touch_refines hn
      rw [if_neg hold, if_neg (mt hexpired.mp hold), show (entryOf n).2 = n.1 from rfl, htouch]
      exact ⟨c', rfl, hrep, hview⟩

theorem invalidate_refines (key : κ) : ∃ c', c.invalidate key = some c' ∧ Rep c' ∧
    c'.view = c.view.invalidate key := by
  rcases h.find key with ⟨hindex, hrow, hnone⟩ | ⟨n, hn, rfl, hindex, hrow⟩
  · refine ⟨c, by rw [invalidate, hindex], h, ?_⟩
    have hsame : forget key c.view.order = c.view.order := by
      refine deleteWhere_eq_self.mpr fun e he => beq_eq_false_iff_ne.mpr ?_
      exact lookup_eq_none.mp hrow e he
    rw [TtlLruCache.invalidate, hsame]
  · obtain ⟨c', herase, hrep, hview⟩ := h.erase_refines hn
    exact ⟨c', by rw [invalidate, hindex, ← herase], hrep, hview⟩

omit h [DecidableEq κ] in
theorem clear_refines : Rep c.clear ∧ c.clear.view = { c.view with order := [] } :=
  ⟨⟨⟨List.Perm.nil, Keyed.nil, Keyed.nil, fun _ hn => absurd hn List.not_mem_nil⟩, Nat.zero_le _⟩, rfl⟩

theorem put_refines (key : κ) (value : ν) (nowMs : Int) : ∃ c',
    c.put key value nowMs = some (c.view.evicted key, c') ∧ Rep c' ∧ c'.view = c.view.put key value nowMs := by
  have hcapacity : c.view.capacity = c.capacity := rfl
  rw [put, TtlLruCache.put, TtlLruCache.evicted, hcapacity]
  by_cases hzero : c.capacity = 0
  · rw [if_pos hzero, if_pos hzero, if_pos hzero]
    exact ⟨c, rfl, h, rfl⟩
  rw [if_neg hzero, if_neg hzero, if_neg hzero]
  rcases h.find key with ⟨hindex, hrow, hnone⟩ | ⟨n, hn, rfl, hindex, hrow⟩
  · rw [hindex, hrow]
    dsimp only
    have hpush : Linked { c with
        order := (c.nextAddr, (⟨key, value, nowMs⟩ : CacheNode κ ν)) :: c.order
        index := upsertRow Prod.fst (key, c.nextAddr) c.index
        nextAddr := c.nextAddr + 1 } := h.push hnone
    have hlen := hpush.length_index
    rw [hlen]
    obtain ⟨c', hloop, hrep, hview⟩ := hpush.evictLoop_eq (Nat.le_add_left _ c.capacity)
    refine ⟨c', ?_, hrep, hview⟩
    rw [hloop]
    obtain ⟨k, hk⟩ := Nat.exists_eq_succ_of_ne_zero hzero
    rw [hk, List.drop_succ_cons, Nat.succ_sub_one, view, ← List.map_drop, List.map_map]
    rfl
  · have hderef : c.deref (entryOf n).2 = some n.2 := by rw [deref, entryOf, h.lookup_addr hn, Option.map_some]
    rw [hindex, hrow]
    simp only [Option.bind_eq_bind, hderef, Option.bind_some]
    obtain ⟨hlinked, hmem, hothers⟩ := h.write hn ⟨n.2.key, value, nowMs⟩ rfl
    have hwritten : Rep { c with
        order := updateWhere (fun n' => n'.1 == n.1) (fun n' => (n'.1, ⟨n.2.key, value, nowMs⟩)) c.order } := by
      refine ⟨hlinked, ?_⟩
      rw [updateWhere, List.length_map]
      exact h.bounded
    obtain ⟨c', htouch, hrep, hview⟩ := hwritten.touch_refines hmem
    refine ⟨c', ?_, hrep, ?_⟩
    · rw [show (entryOf n).2 = n.1 from rfl, htouch]
      rfl
    · have hrows := hlinked.rows_delete hmem
      rw [hothers, h.rows_delete hn] at hrows
      rw [hview]
      exact congrArg (fun rest => (⟨c.capacity, c.ttlMs, (keyOf n, value, nowMs) :: rest⟩ : TtlLruCache κ ν)) hrows.symm

end Rep

end IndexedCache

end Cortrix.Catalog
